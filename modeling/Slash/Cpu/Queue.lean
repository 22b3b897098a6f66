import Slash.Lib.LeastExtension
import Slash.Lib.OrderedMap
import Slash.Lib.Update

/-!
# The CPU queue

`CpuDevicePlan::runOnce` executes the nodes of one queue program. A node whose queue-local
predecessors have all run goes to a FIFO, or to a set that is polled round-robin if it is a
consumer or a wait. The run is a machine whose steps are the rounds of the loops of `runOnce`; what
a node, a probe or the clock does in a round is an answer from outside, so a list of answers is a
run. The log of a run holds the probes and executions in their order.
-/

namespace Slash.Cpu

open Lib List

abbrev ScheduleStepId := Nat

inductive CpuProgramNodeKind where
  | kernel | producerOp | consumerOp | noop | boundary | loop | conditional | signal | wait
  deriving DecidableEq, Repr

/-- `CpuProgramNode`, without the commands of the kinds. -/
structure CpuProgramNode where
  step : ScheduleStepId
  kind : CpuProgramNodeKind := .boundary
  initialUnmet : Nat := 0
  successors : List Nat := []
  deriving DecidableEq, Repr

def successorsAt (nodes : List CpuProgramNode) (i : Nat) : List Nat :=
  ((nodes[i]?).map CpuProgramNode.successors).getD []

/-- Consumer bridges and waits are polled. -/
def CpuProgramNodeKind.polled : CpuProgramNodeKind → Bool
  | .consumerOp => true
  | .wait => true
  | _ => false

def polledAt (nodes : List CpuProgramNode) (i : Nat) : Bool :=
  ((nodes[i]?).map fun node => node.kind.polled).getD false

/-! ## The machine -/

/-- What a run does to the nodes. -/
inductive Event where
  | probed (idx : Nat) (ready : Bool)
  | executed (idx : Nat)
  deriving DecidableEq, Repr

/-- Where `runOnce` is: at the head of the FIFO loop, in round `step` of the scan of the poll set,
or finished. -/
inductive Phase where
  | drain
  | scan (step : Nat)
  | returned
  | threw
  deriving DecidableEq, Repr

/-- The plan's program, the locals of `runOnce`, and the log of the run. -/
structure RunState where
  runtime : List CpuProgramNode
  unmetCounts : Nat → Nat
  readyKP : List Nat := []
  pendingCons : List Nat := []
  rrCursor : Nat := 0
  phase : Phase := .drain
  log : List Event := []

/-- What happens outside in one round: what the probe or the wait slot says (`none` if the probe
throws), whether the node throws, whether the watchdog has run out. -/
structure Answer where
  probe : Option Bool := some true
  throws : Bool := false
  late : Bool := false

namespace RunState

def promote (s : RunState) (idx : Nat) : RunState :=
  if polledAt s.runtime idx then { s with pendingCons := s.pendingCons ++ [idx] }
  else { s with readyKP := s.readyKP ++ [idx] }

/-- `--count` on a `size_t`. -/
def decrement (count : Nat) : Nat := if count = 0 then 2 ^ 64 - 1 else count - 1

def release (s : RunState) (successor : Nat) : RunState :=
  let count := decrement (s.unmetCounts successor)
  let s := { s with unmetCounts := upd s.unmetCounts successor count }
  if count = 0 then s.promote successor else s

def runIndex (s : RunState) (throws : Bool) (idx : Nat) : RunState :=
  let s := { s with log := s.log ++ [Event.executed idx] }
  if throws then { s with phase := .threw }
  else (successorsAt s.runtime idx).foldl release { s with phase := .drain }

def cursor (s : RunState) : Nat := if s.pendingCons.length ≤ s.rrCursor then 0 else s.rrCursor

def poll (s : RunState) (a : Answer) (round : Nat) : RunState :=
  let idx := s.pendingCons.getD s.cursor 0
  match a.probe with
  | none => { s with rrCursor := s.cursor, phase := .threw }
  | some false =>
    { s with
      rrCursor := s.cursor + 1
      phase := .scan (round + 1)
      log := s.log ++ [Event.probed idx false] }
  | some true =>
    { s with
      rrCursor := s.cursor
      pendingCons := s.pendingCons.eraseIdx s.cursor
      log := s.log ++ [Event.probed idx true] }.runIndex a.throws idx

/-- One round of `runOnce`. -/
def step (s : RunState) (a : Answer) : RunState :=
  match s.phase with
  | .drain =>
    match s.readyKP with
    | idx :: rest => { s with readyKP := rest }.runIndex a.throws idx
    | [] => if s.pendingCons = [] then { s with phase := .returned } else { s with phase := .scan 0 }
  | .scan round =>
    if round < s.pendingCons.length then s.poll a round
    else if a.late then { s with phase := .threw }
    else { s with phase := .drain }
  | .returned => s
  | .threw => s

def start (runtime : List CpuProgramNode) : RunState :=
  let unmetCounts := fun i => ((runtime[i]?).map CpuProgramNode.initialUnmet).getD 0
  (List.range runtime.length).foldl (fun s i => if unmetCounts i = 0 then s.promote i else s)
    { runtime := runtime, unmetCounts := unmetCounts }

/-- The run so far finished, so that the plan can be launched again. -/
def finished (s : RunState) : Bool := s.phase = .returned ∨ s.phase = .threw

end RunState

/-- The states of a plan for program `nodes`: in its first run, or in a later one after the runs
before it were joined. -/
inductive Launched (nodes : List CpuProgramNode) : RunState → Prop
  | first : Launched nodes (.start nodes)
  | step {s : RunState} (a : Answer) (h : Launched nodes s) : Launched nodes (s.step a)
  | again {s : RunState} (h : Launched nodes s) (hend : s.finished) :
      Launched nodes (.start s.runtime)

/-! ## Edges -/

def Edge (nodes : List CpuProgramNode) (i j : Nat) : Prop := j ∈ successorsAt nodes i

def incoming (nodes : List CpuProgramNode) (j : Nat) : Nat :=
  ((List.range nodes.length).flatMap (successorsAt nodes)).count j

/-- The edges stay inside the queue and have no cycle, and the counters are the numbers of
incoming edges. -/
structure Wired (nodes : List CpuProgramNode) : Prop where
  inside : ∀ i j, Edge nodes i j → j < nodes.length
  counts : ∀ j node, nodes[j]? = some node → node.initialUnmet = incoming nodes j
  acyclic : ∀ i, ¬ Relation.TransGen (Edge nodes) i i

theorem Edge.lt {nodes : List CpuProgramNode} {i j : Nat} (h : Edge nodes i j) :
    i < nodes.length := by
  by_contra hge
  rw [Edge, successorsAt, List.getElem?_eq_none (Nat.le_of_not_lt hge)] at h
  exact not_mem_nil h

/-- The targets of the edges that leave nodes which have not run. -/
def openEdges (nodes : List CpuProgramNode) (done : List Nat) : List Nat :=
  ((List.range nodes.length).filter (· ∉ done)).flatMap (successorsAt nodes)

theorem openEdges_nil (nodes : List CpuProgramNode) (j : Nat) :
    (openEdges nodes []).count j = incoming nodes j := by
  simp [openEdges, incoming]

theorem count_openEdges_eq_zero {nodes : List CpuProgramNode} {done : List Nat} {j : Nat} :
    (openEdges nodes done).count j = 0 ↔ ∀ i, Edge nodes i j → i ∈ done := by
  rw [count_eq_zero, openEdges]
  simp only [mem_flatMap, mem_filter, mem_range, decide_eq_true_eq, not_exists,
    not_and]
  constructor
  · intro h i hi
    by_contra hopen
    exact h i ⟨hi.lt, hopen⟩ hi
  · rintro h i ⟨-, hopen⟩ hi
    exact hopen (h i hi)

/-- Running a node closes its edges. -/
theorem count_openEdges_snoc {nodes : List CpuProgramNode} {done : List Nat} {idx : Nat}
    (hidx : idx < nodes.length) (hopen : idx ∉ done) (j : Nat) :
    (openEdges nodes (done ++ [idx])).count j + (successorsAt nodes idx).count j =
      (openEdges nodes done).count j := by
  unfold openEdges
  have hsplit : ∀ l : List Nat, l.Nodup →
      (((l.filter (· ∉ done ++ [idx])).flatMap (successorsAt nodes)).count j +
        if idx ∈ l then (successorsAt nodes idx).count j else 0) =
      ((l.filter (· ∉ done)).flatMap (successorsAt nodes)).count j := by
    intro l
    induction l with
    | nil => intro _; rfl
    | cons x l ih =>
      intro hnodup
      obtain ⟨hx, hl⟩ := nodup_cons.1 hnodup
      specialize ih hl
      by_cases hxi : x = idx
      · subst hxi
        rw [filter_cons_of_neg (by simp), filter_cons_of_pos (by simpa using hopen),
          flatMap_cons, count_append, if_pos mem_cons_self]
        rw [if_neg hx] at ih
        omega
      · have hmem : idx ∈ x :: l ↔ idx ∈ l := by simp [Ne.symm hxi]
        simp only [hmem]
        by_cases hdone : x ∈ done
        · rw [filter_cons_of_neg (by simp [hdone]), filter_cons_of_neg (by simp [hdone])]
          exact ih
        · rw [filter_cons_of_pos (by simp [hdone, hxi]),
            filter_cons_of_pos (by simp [hdone]), flatMap_cons, flatMap_cons,
            count_append, count_append, ← ih, Nat.add_assoc]
  have h := hsplit _ (nodup_range (n := nodes.length))
  rwa [if_pos (mem_range.2 hidx)] at h

/-! ## The lowering's wiring -/

/-- `indexes` of `wireDirectDependencies`. -/
def indexes (nodes : List CpuProgramNode) : OrderedMap ScheduleStepId Nat :=
  nodes.zipIdx.foldl (fun m e => m.insert e.1.step e.2) .empty

/-- One dependency on a node of the queue: an edge, and one more predecessor to wait for. -/
def addEdge (nodes : List CpuProgramNode) (e : Nat × Nat) : List CpuProgramNode :=
  (nodes.modify e.1 fun node => { node with successors := node.successors ++ [e.2] }).modify e.2
    fun node => { node with initialUnmet := node.initialUnmet + 1 }

/-- The dependencies on steps of the queue, in the order of the loops; the others are skipped. -/
def localEdges (dependencies : ScheduleStepId → List ScheduleStepId)
    (nodes : List CpuProgramNode) : List (Nat × Nat) :=
  nodes.zipIdx.flatMap fun e => (dependencies e.1.step).filterMap fun dependency =>
    ((indexes nodes).find? dependency).map fun predecessor => (predecessor, e.2)

def wireDirectDependencies (dependencies : ScheduleStepId → List ScheduleStepId)
    (nodes : List CpuProgramNode) : List CpuProgramNode :=
  (localEdges dependencies nodes).foldl addEdge nodes

section Wiring

variable {nodes : List CpuProgramNode}

theorem find?_indexes {es : List (CpuProgramNode × Nat)} {m : OrderedMap ScheduleStepId Nat}
    {step : ScheduleStepId} {i : Nat}
    (h : (es.foldl (fun m e => m.insert e.1.step e.2) m).find? step = some i) :
    m.find? step = some i ∨ ∃ e ∈ es, e.2 = i := by
  induction es generalizing m with
  | nil => exact .inl h
  | cons e es ih =>
    obtain h | ⟨e', he', hi⟩ := ih h
    · rw [OrderedMap.find?_insert] at h
      split at h
      · exact .inr ⟨e, mem_cons_self, Option.some.inj h⟩
      · exact .inl h
    · exact .inr ⟨e', mem_cons_of_mem _ he', hi⟩

theorem localEdges_lt {dependencies : ScheduleStepId → List ScheduleStepId} {e : Nat × Nat}
    (he : e ∈ localEdges dependencies nodes) : e.1 < nodes.length ∧ e.2 < nodes.length := by
  obtain ⟨n, hn, he⟩ := mem_flatMap.1 he
  obtain ⟨dependency, -, he⟩ := mem_filterMap.1 he
  obtain ⟨predecessor, hp, rfl⟩ := Option.map_eq_some_iff.1 he
  have hlt : ∀ n ∈ nodes.zipIdx, n.2 < nodes.length := by
    rintro ⟨node, i⟩ hmem
    have h := (mem_zipIdx hmem).2.1
    omega
  refine ⟨?_, hlt n hn⟩
  obtain hnone | ⟨n', hn', rfl⟩ := find?_indexes hp
  · cases hnone
  · exact hlt n' hn'

theorem length_foldl_addEdge (es : List (Nat × Nat)) :
    (es.foldl addEdge nodes).length = nodes.length := by
  induction es generalizing nodes with
  | nil => rfl
  | cons e es ih =>
    rw [foldl_cons, ih, addEdge, length_modify, length_modify]

theorem getElem?_addEdge (e : Nat × Nat) (i : Nat) :
    (addEdge nodes e)[i]? = (nodes[i]?).map fun node =>
      { node with
        successors := node.successors ++ (if e.1 = i then [e.2] else [])
        initialUnmet := node.initialUnmet + (if e.2 = i then 1 else 0) } := by
  unfold addEdge
  rw [List.getElem?_modify, List.getElem?_modify]
  cases nodes[i]? with
  | none => rfl
  | some node => by_cases h1 : e.1 = i <;> by_cases h2 : e.2 = i <;> simp [h1, h2]

theorem filter_cons_source (e : Nat × Nat) (es : List (Nat × Nat)) (i : Nat) :
    ((e :: es).filter fun e => e.1 = i).map Prod.snd =
      (if e.1 = i then [e.2] else []) ++ (es.filter fun e => e.1 = i).map Prod.snd := by
  by_cases hi : e.1 = i <;> simp [hi]

theorem successorsAt_foldl (es : List (Nat × Nat)) (hes : ∀ e ∈ es, e.1 < nodes.length) (i : Nat) :
    successorsAt (es.foldl addEdge nodes) i =
      successorsAt nodes i ++ (es.filter fun e => e.1 = i).map Prod.snd := by
  induction es generalizing nodes with
  | nil => exact (append_nil _).symm
  | cons e es ih =>
    have hlen : (addEdge nodes e).length = nodes.length := length_foldl_addEdge [e]
    have hfirst : successorsAt (addEdge nodes e) i =
        successorsAt nodes i ++ if e.1 = i then [e.2] else [] := by
      unfold successorsAt
      rw [getElem?_addEdge]
      cases hi : nodes[i]? with
      | some node => rfl
      | none =>
        have hne : e.1 ≠ i := by
          rintro rfl
          exact absurd (hes e mem_cons_self) (Nat.not_lt.2 (List.getElem?_eq_none_iff.1 hi))
        simp [hne]
    rw [foldl_cons, ih, hfirst, append_assoc, filter_cons_source]
    intro e' he'
    rw [hlen]
    exact hes e' (mem_cons_of_mem _ he')

theorem initialUnmet_foldl (es : List (Nat × Nat)) (j : Nat) :
    ((es.foldl addEdge nodes)[j]?).map CpuProgramNode.initialUnmet =
      (nodes[j]?).map fun node => node.initialUnmet + es.countP fun e => e.2 = j := by
  induction es generalizing nodes with
  | nil => rfl
  | cons e es ih =>
    rw [foldl_cons, ih, getElem?_addEdge, Option.map_map, countP_cons]
    congr 1
    funext node
    simp only [Function.comp_apply, decide_eq_true_eq]
    omega

theorem count_flatMap_append (l : List Nat) (f g : Nat → List Nat) (j : Nat) :
    (l.flatMap fun i => f i ++ g i).count j = (l.flatMap f).count j + (l.flatMap g).count j := by
  induction l with
  | nil => rfl
  | cons i l ih =>
    simp only [flatMap_cons, count_append, ih]
    omega

theorem count_flatMap_single (l : List Nat) (x y j : Nat) :
    (l.flatMap fun i => if x = i then [y] else []).count j = if y = j then l.count x else 0 := by
  induction l with
  | nil => simp
  | cons i l ih =>
    rw [flatMap_cons, count_append, ih]
    by_cases hx : x = i
    · subst hx
      by_cases hy : y = j
      · subst hy
        simp [Nat.add_comm]
      · simp [hy]
    · rw [if_neg hx, count_cons_of_ne (Ne.symm hx), count_nil, Nat.zero_add]

/-- Grouping edges by their sources keeps their number. -/
theorem count_grouped (n : Nat) (es : List (Nat × Nat)) (hes : ∀ e ∈ es, e.1 < n) (j : Nat) :
    ((List.range n).flatMap fun i => (es.filter fun e => e.1 = i).map Prod.snd).count j =
      es.countP fun e => e.2 = j := by
  induction es with
  | nil => simp [count_eq_zero]
  | cons e es ih =>
    have hsplit : (fun i => ((e :: es).filter fun e => e.1 = i).map Prod.snd) =
        fun i => (if e.1 = i then [e.2] else []) ++ (es.filter fun e => e.1 = i).map Prod.snd := by
      funext i
      exact filter_cons_source e es i
    have hone : (List.range n).count e.1 = 1 :=
      count_eq_one_of_mem nodup_range (mem_range.2 (hes e mem_cons_self))
    rw [hsplit, count_flatMap_append, count_flatMap_single, hone,
      ih fun e' he' => hes e' (mem_cons_of_mem _ he'), countP_cons, Nat.add_comm]
    simp only [decide_eq_true_eq]

/-- The nodes as the lowering of the steps leaves them. -/
def Unwired (nodes : List CpuProgramNode) : Prop :=
  ∀ node ∈ nodes, node.successors = [] ∧ node.initialUnmet = 0

theorem successorsAt_unwired (h : Unwired nodes) (i : Nat) : successorsAt nodes i = [] := by
  unfold successorsAt
  cases hi : nodes[i]? with
  | none => rfl
  | some node => exact (h node (mem_of_getElem? hi)).1

/-- The edges of the wired program are the dependencies on steps of the queue. -/
theorem edge_wireDirectDependencies (h : Unwired nodes)
    (dependencies : ScheduleStepId → List ScheduleStepId) (i j : Nat) :
    Edge (wireDirectDependencies dependencies nodes) i j ↔
      (i, j) ∈ localEdges dependencies nodes := by
  unfold Edge wireDirectDependencies
  rw [successorsAt_foldl _ (fun e he => (localEdges_lt he).1), successorsAt_unwired h,
    nil_append, mem_map]
  constructor
  · rintro ⟨e, he, rfl⟩
    obtain ⟨he, hi⟩ := mem_filter.1 he
    rw [← of_decide_eq_true hi]
    exact he
  · intro he
    exact ⟨(i, j), mem_filter.2 ⟨he, decide_eq_true rfl⟩, rfl⟩

/-- And the counters count them. -/
theorem initialUnmet_wireDirectDependencies (h : Unwired nodes)
    (dependencies : ScheduleStepId → List ScheduleStepId) (j : Nat) (node : CpuProgramNode)
    (hj : (wireDirectDependencies dependencies nodes)[j]? = some node) :
    node.initialUnmet = incoming (wireDirectDependencies dependencies nodes) j := by
  have hlt : ∀ e ∈ localEdges dependencies nodes, e.1 < nodes.length :=
    fun e he => (localEdges_lt he).1
  have hincoming : incoming (wireDirectDependencies dependencies nodes) j =
      (localEdges dependencies nodes).countP fun e => e.2 = j := by
    unfold incoming wireDirectDependencies
    rw [length_foldl_addEdge, ← count_grouped nodes.length _ hlt]
    congr 2
    funext i
    rw [successorsAt_foldl _ hlt, successorsAt_unwired h, nil_append]
  have hcount := congrArg (Option.map CpuProgramNode.initialUnmet) hj
  unfold wireDirectDependencies at hcount
  rw [initialUnmet_foldl] at hcount
  obtain ⟨old, hold, hnew⟩ := Option.map_eq_some_iff.1 hcount
  rw [(h old (mem_of_getElem? hold)).2, Nat.zero_add] at hnew
  rw [hincoming]
  exact hnew.symm

/-- What `wireDirectDependencies` builds from dependencies without a cycle is wired. -/
theorem wired_wireDirectDependencies (h : Unwired nodes)
    (dependencies : ScheduleStepId → List ScheduleStepId)
    (hacyclic : ∀ i, ¬ Relation.TransGen
      (fun i j => (i, j) ∈ localEdges dependencies nodes) i i) :
    Wired (wireDirectDependencies dependencies nodes) where
  inside := by
    intro i j hedge
    rw [edge_wireDirectDependencies h] at hedge
    unfold wireDirectDependencies
    rw [length_foldl_addEdge]
    exact (localEdges_lt hedge).2
  counts := initialUnmet_wireDirectDependencies h dependencies
  acyclic := by
    have heq : Edge (wireDirectDependencies dependencies nodes) =
        fun i j => (i, j) ∈ localEdges dependencies nodes := by
      funext i j
      exact propext (edge_wireDirectDependencies h dependencies i j)
    rw [heq]
    exact hacyclic

end Wiring

/-! ## Promotion and release -/

/-- The nodes whose predecessors have run and which have not. -/
def RunState.waiting (s : RunState) : List Nat := s.readyKP ++ s.pendingCons

/-- `t` is `s` with `added` put where their kinds belong. -/
structure Enlisted (s t : RunState) (added : List Nat) : Prop where
  runtime : t.runtime = s.runtime
  readyKP : t.readyKP = s.readyKP ++ added.filter fun i => !polledAt s.runtime i
  pendingCons : t.pendingCons = s.pendingCons ++ added.filter fun i => polledAt s.runtime i
  phase : t.phase = s.phase
  log : t.log = s.log

theorem Enlisted.refl (s : RunState) : Enlisted s s [] :=
  ⟨rfl, (append_nil _).symm, (append_nil _).symm, rfl, rfl⟩

theorem Enlisted.trans {s t u : RunState} {added more : List Nat} (h : Enlisted s t added)
    (h' : Enlisted t u more) : Enlisted s u (added ++ more) := by
  refine ⟨h'.runtime.trans h.runtime, ?_, ?_, h'.phase.trans h.phase, h'.log.trans h.log⟩
  · rw [h'.readyKP, h.readyKP, h.runtime, filter_append, append_assoc]
  · rw [h'.pendingCons, h.pendingCons, h.runtime, filter_append, append_assoc]

theorem enlisted_promote (s : RunState) (idx : Nat) : Enlisted s (s.promote idx) [idx] := by
  unfold RunState.promote
  split
  · rename_i hpolled
    exact ⟨rfl, by simp [hpolled], by simp [hpolled], rfl, rfl⟩
  · rename_i hpolled
    exact ⟨rfl, by simp [hpolled], by simp [hpolled], rfl, rfl⟩

theorem Enlisted.perm {s t : RunState} {added : List Nat} (h : Enlisted s t added) :
    t.waiting.Perm (s.waiting ++ added) := by
  unfold RunState.waiting
  rw [h.readyKP, h.pendingCons]
  calc s.readyKP ++ added.filter (fun i => !polledAt s.runtime i) ++
        (s.pendingCons ++ added.filter fun i => polledAt s.runtime i)
      |>.Perm (s.readyKP ++ s.pendingCons ++ (added.filter (fun i => !polledAt s.runtime i) ++
        added.filter fun i => polledAt s.runtime i)) := by
        simp only [append_assoc]
        refine List.Perm.append_left _ ?_
        rw [← append_assoc, ← append_assoc]
        exact List.Perm.append_right _ perm_append_comm
    _ |>.Perm _ := by
        refine List.Perm.append_left _ ?_
        exact perm_append_comm.trans (filter_append_perm _ _)

theorem unmetCounts_promote (s : RunState) (idx : Nat) :
    (s.promote idx).unmetCounts = s.unmetCounts := by
  unfold RunState.promote
  split <;> rfl

/-- The successors of a node that has run: the counters go down, and those that reach zero are
enlisted, each once. -/
theorem release_spec (l : List Nat) (s : RunState) (hcount : ∀ j, l.count j ≤ s.unmetCounts j) :
    ∃ added, Enlisted s (l.foldl RunState.release s) added ∧ added.Nodup ∧
      (∀ j, j ∈ added ↔ j ∈ l ∧ s.unmetCounts j = l.count j) ∧
      ∀ j, (l.foldl RunState.release s).unmetCounts j = s.unmetCounts j - l.count j := by
  induction l generalizing s with
  | nil => exact ⟨[], Enlisted.refl s, nodup_nil, by simp, fun j => rfl⟩
  | cons x l ih =>
    have hx : l.count x + 1 ≤ s.unmetCounts x := by
      have h := hcount x
      rwa [count_cons_self] at h
    have hdec : RunState.decrement (s.unmetCounts x) = s.unmetCounts x - 1 := by
      unfold RunState.decrement
      rw [if_neg (by omega)]
    -- the counters after this release, whether or not it promotes
    have hcounts : (s.release x).unmetCounts = upd s.unmetCounts x (s.unmetCounts x - 1) := by
      unfold RunState.release
      simp only [hdec]
      split
      · rw [unmetCounts_promote]
      · rfl
    have hfirst : Enlisted s (s.release x) (if s.unmetCounts x = 1 then [x] else []) := by
      unfold RunState.release
      simp only [hdec]
      by_cases hone : s.unmetCounts x = 1
      · rw [if_pos hone, if_pos (by omega)]
        have h := enlisted_promote
          { s with unmetCounts := upd s.unmetCounts x (s.unmetCounts x - 1) } x
        exact ⟨h.runtime, h.readyKP, h.pendingCons, h.phase, h.log⟩
      · rw [if_neg hone, if_neg (by omega)]
        exact ⟨rfl, (append_nil _).symm, (append_nil _).symm, rfl, rfl⟩
    have hcount' : ∀ j, l.count j ≤ (s.release x).unmetCounts j := by
      intro j
      rw [hcounts, upd_apply]
      split
      · rename_i hj
        rw [hj]
        omega
      · rename_i hj
        have h := hcount j
        rwa [count_cons_of_ne (Ne.symm hj)] at h
    obtain ⟨added, henlisted, hnodup, hmem, hrest⟩ := ih (s.release x) hcount'
    refine ⟨_, hfirst.trans henlisted, ?_, ?_, ?_⟩
    · by_cases hone : s.unmetCounts x = 1
      · rw [if_pos hone, singleton_append, nodup_cons]
        refine ⟨fun hadded => ?_, hnodup⟩
        have hpos := count_pos_iff.2 ((hmem x).1 hadded).1
        omega
      · rw [if_neg hone]
        exact hnodup
    · intro j
      rw [mem_append, hmem, hcounts, upd_apply]
      by_cases hj : j = x
      · subst hj
        rw [if_pos rfl, count_cons_self]
        by_cases hone : s.unmetCounts j = 1
        · simp [hone]
          omega
        · have hpos : j ∈ l ↔ 0 < l.count j := count_pos_iff.symm
          simp only [hone, if_false, not_mem_nil, false_or, mem_cons_self, true_and, hpos]
          omega
      · rw [if_neg hj, count_cons_of_ne (Ne.symm hj), mem_cons]
        have hfirst' : j ∉ (if s.unmetCounts x = 1 then [x] else []) := by
          split
          · exact fun h => hj (mem_singleton.1 h)
          · exact not_mem_nil
        simp only [hfirst', hj, false_or]
    · intro j
      rw [foldl_cons, hrest j, hcounts, upd_apply]
      by_cases hj : j = x
      · subst hj
        rw [if_pos rfl, count_cons_self]
        omega
      · rw [if_neg hj, count_cons_of_ne (Ne.symm hj)]

end Slash.Cpu
