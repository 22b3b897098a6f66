import Mathlib.Algebra.Group.Nat.Defs
import Slash.Host.Packets
import Slash.Lib.Scatter

/-!
# Kernel arguments

`packKernelArgs` appends `(register offset, value)` pairs to one growing word vector, with zero
values, and notes in two lists where the launch has to put scalars and buffer addresses.

`argsOf` says what the pairs of a kernel are, without a buffer: every port takes its register in
descriptor order, a skipped one too, and every port that is not skipped becomes an argument. The
packer is then an append of such arguments, and a launch is a list of stores that all agree with
the buffer the arguments ask for.
-/

namespace Slash.Host

open Lib List Ensures
open Rp1

/-- The graph scalar map: values under the text of `scopedScalarKey`, or under a bare name. -/
abbrev ScalarValues := List (String × U64)

/-- The scoped key wins; the bare name is a fallback for the root scope. -/
def ScalarValues.find (values : ScalarValues) (key : ScalarKey) : Option U64 :=
  match values.lookup (scalarKeyText (some key)) with
  | some bits => some bits
  | none => if key.scope = 0 then values.lookup key.name else none

/-! ## The arguments of a kernel -/

inductive Port where
  | scalar (p : ScalarPort)
  | input (name : String)
  | output (name : String)
  | inout (inName outName : String)

def Port.name : Port → String
  | scalar p => p.name
  | input n | output n => n
  | inout n _ => n

def Port.words : Port → Nat
  | scalar p => scalarWidthInWords p.type
  | input _ | output _ | inout _ _ => 2

/-- A scalar that a SCALAR_COPY feeds. -/
def Port.skipped (skip : List String) : Port → Bool
  | scalar p => p.name ∈ skip
  | input _ | output _ | inout _ _ => false

/-- Descriptor order: input scalars, input buffers, output buffers, read-write pairs. -/
def KernelDescriptor.ports (k : KernelDescriptor) : List Port :=
  k.inputScalars.map .scalar ++ k.inputs.map .input ++ k.outputs.map .output ++
    k.inouts.map fun p => .inout p.1 p.2

/-- What a port is fed from at launch. -/
inductive ArgSource where
  | scalar (key : ScalarKey) (type : ScalarType)
  | buffer (b : GraphBuffer)

/-- The binding of a port; a read-write pair passes its input buffer. -/
def KernelCommand.source (k : KernelCommand) : Port → Option ArgSource
  | .scalar p => (k.ioMap.inputScalars.lookup p.name).map fun key => .scalar key p.type
  | .input n => (k.ioMap.inputs.lookup n).map .buffer
  | .output n => (k.ioMap.outputs.lookup n).map .buffer
  | .inout i o => (k.ioMap.inouts.find? fun b => b.inPort == i && b.outPort == o).map fun b =>
      .buffer b.inBuffer

structure Arg where
  base : U32
  source : ArgSource
  diagnostic : String

def Arg.width (a : Arg) : Nat :=
  match a.source with
  | .scalar _ type => scalarWidthInWords type
  | .buffer _ => 2

theorem Arg.width_of_source {k : KernelCommand} {p : Port} {src : ArgSource}
    (h : k.source p = some src) (base : U32) (diagnostic : String) :
    Arg.width ⟨base, src, diagnostic⟩ = p.words := by
  cases p with
  | scalar p | input n | output n | inout i o =>
    obtain ⟨_, _, rfl⟩ := Option.map_eq_some_iff.mp h
    rfl

def argsOf (k : KernelCommand) (skip : List String) : ArgLayout → List Port →
    Except String (List Arg)
  | _, [] => .ok []
  | l, p :: ps => do
    let (base, l) ← l.take p.name p.words
    if p.skipped skip then argsOf k skip l ps
    else
      match k.source p with
      | none => .error (missingBinding k ("port '" ++ p.name ++ "' has"))
      | some src => do
        let rest ← argsOf k skip l ps
        pure (⟨base, src, k.id ++ "." ++ p.name⟩ :: rest)

def kernelArgs (dev : Device) (k : KernelCommand) (skip : List String) :
    Except String (List Arg) :=
  argsOf k skip ⟨dev.kernelArgOffsets k.kernel, k.kernel.name, 0x10⟩ k.kernel.ports

/-! ## Where they lie -/

def widths : List Arg → Nat
  | [] => 0
  | a :: as => a.width + widths as

@[simp] theorem widths_nil : widths [] = 0 := rfl

@[simp] theorem widths_cons (a : Arg) (as : List Arg) : widths (a :: as) = a.width + widths as :=
  rfl

@[simp] theorem widths_append (as bs : List Arg) : widths (as ++ bs) = widths as + widths bs := by
  induction as with
  | nil => simp
  | cons a as ih => simp [ih, Nat.add_assoc]

def Arg.pairs (a : Arg) (words : Nat → U32) : List (U32 × U32) :=
  (List.range a.width).map fun w => (a.base + BitVec.ofNat 32 (4 * w), words w)

@[simp] theorem Arg.length_pairs (a : Arg) (words : Nat → U32) :
    (a.pairs words).length = a.width := by
  simp [Arg.pairs]

def pairsOf (words : Arg → Nat → U32) (as : List Arg) : List (U32 × U32) :=
  as.flatMap fun a => a.pairs (words a)

theorem pairsOf_append (words : Arg → Nat → U32) (as bs : List Arg) :
    pairsOf words (as ++ bs) = pairsOf words as ++ pairsOf words bs :=
  flatMap_append

@[simp] theorem length_pairsOf (words : Arg → Nat → U32) (as : List Arg) :
    (pairsOf words as).length = widths as := by
  induction as with
  | nil => rfl
  | cons a as ih =>
    rw [pairsOf, flatMap_cons, length_append, a.length_pairs, widths_cons, ← ih, pairsOf]

/-- Zero values until the launch. -/
def blank (_ : Arg) (_ : Nat) : U32 := 0

/-- The entry of `deferred` for an argument whose first pair is number `q`. -/
def Arg.deferredScalar (q : Nat) (a : Arg) : List DeferredScalar :=
  match a.source with
  | .scalar key type => [⟨key, type, 2 * q + 1, a.diagnostic⟩]
  | .buffer _ => []

/-- The entry of `deferredBufferAddresses`. -/
def Arg.deferredAddress (q : Nat) (a : Arg) : List DeferredBufferAddress :=
  match a.source with
  | .scalar _ _ => []
  | .buffer b => [⟨b, 2 * q + 1, a.diagnostic⟩]

/-- The entries `f` makes of arguments that lie one after the other from pair `q` on. -/
def entriesAt {β : Type} (f : Nat → Arg → List β) : Nat → List Arg → List β
  | _, [] => []
  | q, a :: as => f q a ++ entriesAt f (q + a.width) as

theorem entriesAt_append {β : Type} (f : Nat → Arg → List β) (as bs : List Arg) (q : Nat) :
    entriesAt f q (as ++ bs) = entriesAt f q as ++ entriesAt f (q + widths as) bs := by
  induction as generalizing q with
  | nil => rfl
  | cons a as ih =>
    rw [cons_append, entriesAt, entriesAt, ih, append_assoc, widths_cons, Nat.add_assoc]

theorem mem_entriesAt {β : Type} {f : Nat → Arg → List β} {d : β} {as : List Arg} {q : Nat} :
    d ∈ entriesAt f q as ↔
      ∃ pre a post, as = pre ++ a :: post ∧ d ∈ f (q + widths pre) a := by
  induction as generalizing q with
  | nil => simp [entriesAt]
  | cons a as ih =>
    rw [entriesAt, mem_append, ih]
    constructor
    · rintro (h | ⟨pre, b, post, rfl, h⟩)
      · exact ⟨[], a, as, rfl, h⟩
      · exact ⟨a :: pre, b, post, rfl, by rw [widths_cons, ← Nat.add_assoc]; exact h⟩
    · rintro ⟨pre, b, post, heq, h⟩
      cases pre with
      | nil =>
        cases heq
        exact .inl h
      | cons c pre =>
        cases heq
        refine .inr ⟨pre, b, post, rfl, ?_⟩
        rw [widths_cons, ← Nat.add_assoc] at h
        exact h

theorem exists_arg_of_lt {as : List Arg} {q : Nat} (h : q < widths as) :
    ∃ pre a post w, as = pre ++ a :: post ∧ w < a.width ∧ q = widths pre + w := by
  induction as generalizing q with
  | nil => exact absurd h (Nat.not_lt_zero q)
  | cons a as ih =>
    rw [widths_cons] at h
    by_cases hq : q < a.width
    · exact ⟨[], a, as, q, rfl, hq, (Nat.zero_add q).symm⟩
    · obtain ⟨pre, b, post, w, rfl, hw, hqw⟩ := ih (q := q - a.width) (by omega)
      exact ⟨a :: pre, b, post, w, rfl, hw, by rw [widths_cons]; omega⟩

theorem pairsOf_getElem? {words : Arg → Nat → U32} {pre post : List Arg} {a : Arg} {w : Nat}
    (hw : w < a.width) : (pairsOf words (pre ++ a :: post))[widths pre + w]? =
      some (a.base + BitVec.ofNat 32 (4 * w), words a w) := by
  have hlen := length_pairsOf words pre
  have hsplit : pairsOf words (a :: post) = a.pairs (words a) ++ pairsOf words post := rfl
  rw [pairsOf_append, List.getElem?_append_right (by omega), hlen, Nat.add_sub_cancel_left, hsplit,
    List.getElem?_append_left (by rw [a.length_pairs]; exact hw)]
  simp [Arg.pairs, hw]

/-! ## Packing -/

/-- From `s` to `t` the arguments `as` were packed. -/
structure Packs (s t : Lowering) (as : List Arg) : Prop where
  argBuf : t.argBuf = s.argBuf ++ Lib.interleave (pairsOf blank as)
  deferred : ∀ q, s.argBuf.length = 2 * q →
    t.deferred = s.deferred ++ entriesAt Arg.deferredScalar q as
  addresses : ∀ q, s.argBuf.length = 2 * q →
    t.deferredBufferAddresses = s.deferredBufferAddresses ++ entriesAt Arg.deferredAddress q as
  nodes : t.nodes = s.nodes
  fits : s.argBuf.length ≤ argBufferWords → t.argBuf.length ≤ argBufferWords

theorem Packs.nil (s : Lowering) : Packs s s [] :=
  ⟨(append_nil _).symm, fun _ _ => (append_nil _).symm,
    fun _ _ => (append_nil _).symm, rfl, id⟩

theorem Packs.length {s t : Lowering} {as : List Arg} (h : Packs s t as) {q : Nat}
    (hq : s.argBuf.length = 2 * q) : t.argBuf.length = 2 * (q + widths as) := by
  rw [h.argBuf, length_append, Lib.length_interleave, length_pairsOf, hq]
  omega

theorem Packs.trans {s t u : Lowering} {as bs : List Arg} (h : Packs s t as)
    (h' : Packs t u bs) : Packs s u (as ++ bs) where
  argBuf := by
    rw [h'.argBuf, h.argBuf, pairsOf_append, interleave_append, append_assoc]
  deferred q hq := by
    rw [h'.deferred _ (h.length hq), h.deferred q hq, entriesAt_append, append_assoc]
  addresses q hq := by
    rw [h'.addresses _ (h.length hq), h.addresses q hq, entriesAt_append, append_assoc]
  nodes := h'.nodes.trans h.nodes
  fits hs := h'.fits (h.fits hs)

/-- The packers of the four categories as one, over a port. -/
def packPort (node : KernelCommand) (skip : List String) (acc : ArgLayout × Nat) :
    Port → LowerM (ArgLayout × Nat)
  | .scalar p => packScalar node skip acc p
  | .input n => packBuffer node "input" node.ioMap.inputs acc n
  | .output n => packBuffer node "output" node.ioMap.outputs acc n
  | .inout i o => packInout node acc (i, o)

theorem packKernelArgs_eq (dev : Device) (node : KernelCommand) (skip : List String) :
    packKernelArgs dev node skip = (do
      let acc ← node.kernel.ports.foldlM (packPort node skip)
        (⟨dev.kernelArgOffsets node.kernel, node.kernel.name, 0x10⟩, 0)
      if acc.2 > 0xFFFF then
        throw ("FpgaDevice: kernel '" ++ node.kernel.name ++ "' has " ++ toString acc.2 ++
          " arg pairs, exceeds uint16_t cap")
      pure acc.2) := by
  simp only [packKernelArgs, KernelDescriptor.ports, foldlM_append, foldlM_map, bind_assoc]
  rfl

/-- What packing port `p` from layout `l` and `n` pairs on leads to. -/
def Packed (node : KernelCommand) (skip : List String) (l : ArgLayout) (n : Nat) (p : Port)
    (s : Lowering) (acc : ArgLayout × Nat) (t : Lowering) : Prop :=
  ∃ base, l.take p.name p.words = .ok (base, acc.1) ∧
    (p.skipped skip = true ∧ Packs s t [] ∧ acc.2 = n ∨
      p.skipped skip = false ∧ ∃ src, node.source p = some src ∧
        Packs s t [⟨base, src, node.id ++ "." ++ p.name⟩] ∧ acc.2 = n + p.words)

theorem appendArgWordsAsPairs_appends (base : U32) (width : Nat) (kernel port : String)
    (s : Lowering) : Ensures (appendArgWordsAsPairs base width kernel port) s fun first t =>
      first = s.argBuf.length + 1 ∧ t.argBuf.length ≤ argBufferWords ∧
      t = { s with argBuf := s.argBuf ++ Lib.interleave ((List.range width).map fun w =>
        (base + BitVec.ofNat 32 (4 * w), (0 : U32))) } := by
  unfold appendArgWordsAsPairs
  refine bind (ensures_get (ensures_ite (fun _ => ?_) fun hfits => ?_))
  · exact bind ensures_throw
  refine bind (ensures_set (ensures_pure ⟨rfl, ?_, ?_⟩))
  · simp only [length_append, length_flatMap, length_cons, length_nil]
    simp
    omega
  · simp only [Lib.interleave, flatMap_map]

theorem appendBufferAddress_packs (node : KernelCommand) (l : ArgLayout) (port : String)
    (b : GraphBuffer) (s : Lowering) :
    Ensures (appendBufferAddress node l port b) s fun l' t => ∃ base,
      l.take port 2 = .ok (base, l') ∧
        Packs s t [⟨base, .buffer b, node.id ++ "." ++ port⟩] := by
  unfold appendBufferAddress
  refine bind (ensures_lift fun r hr => ?_)
  obtain ⟨base, l'⟩ := r
  refine bind ((appendArgWordsAsPairs_appends base 2 _ _ s).mono fun first t h => ?_)
  obtain ⟨rfl, hfits, rfl⟩ := h
  refine bind (ensures_modify (ensures_pure ⟨base, hr, ?_⟩))
  refine ⟨?_, fun q hq => ?_, fun q hq => ?_, rfl, fun _ => hfits⟩
  · simp [pairsOf, Arg.pairs, Arg.width, blank]
  · simp [entriesAt, Arg.deferredScalar]
  · simp [entriesAt, Arg.deferredAddress, hq]

theorem packPort_packed (node : KernelCommand) (skip : List String) (l : ArgLayout) (n : Nat)
    (p : Port) (s : Lowering) :
    Ensures (packPort node skip (l, n) p) s (Packed node skip l n p s) := by
  have hbuffer {side : String} {bindings : List (String × GraphBuffer)} {name : String}
      {p : Port} (hname : p.name = name) (hwords : p.words = 2) (hskip : p.skipped skip = false)
      (hsource : node.source p = (bindings.lookup name).map .buffer) :
      Ensures (packBuffer node side bindings (l, n) name) s (Packed node skip l n p s) := by
    unfold packBuffer
    split
    · exact ensures_throw
    · rename_i b hb
      refine bind ((appendBufferAddress_packs node l name b s).mono fun l' t h => ?_)
      obtain ⟨base, hbase, hpacks⟩ := h
      refine ensures_pure ⟨base, by rw [hname, hwords]; exact hbase, .inr ⟨hskip, .buffer b, ?_⟩⟩
      rw [hsource, hb, hname, hwords]
      exact ⟨rfl, hpacks, rfl⟩
  cases p with
  | scalar p =>
    unfold packPort packScalar
    refine bind (ensures_lift fun r hr => ?_)
    obtain ⟨base, l'⟩ := r
    refine ensures_ite (fun hskip => ?_) fun hskip => ?_
    · refine ensures_pure ⟨base, hr, .inl ⟨?_, .nil s, rfl⟩⟩
      exact decide_eq_true hskip
    · split
      · exact ensures_throw
      · rename_i key hkey
        refine bind ((appendArgWordsAsPairs_appends base _ _ _ s).mono fun first t h => ?_)
        obtain ⟨rfl, hfits, rfl⟩ := h
        refine bind (ensures_modify (ensures_pure ⟨base, hr, .inr ⟨?_, ?_⟩⟩))
        · exact decide_eq_false hskip
        · refine ⟨.scalar key p.type, by simp [KernelCommand.source, hkey], ?_, rfl⟩
          refine ⟨?_, fun q hq => ?_, fun q hq => ?_, rfl, fun _ => hfits⟩
          · simp [pairsOf, Arg.pairs, Arg.width, blank]
          · simp [entriesAt, Arg.deferredScalar, hq, Port.name]
          · simp [entriesAt, Arg.deferredAddress]
  | input name => exact hbuffer rfl rfl rfl rfl
  | output name => exact hbuffer rfl rfl rfl rfl
  | inout i o =>
    show Ensures (packInout node (l, n) (i, o)) s _
    unfold packInout
    split
    · exact ensures_throw
    · rename_i b hb
      refine bind ((appendBufferAddress_packs node l i b.inBuffer s).mono fun l' t h => ?_)
      obtain ⟨base, hbase, hpacks⟩ := h
      refine bind (ensures_modify (ensures_pure ⟨base, hbase, .inr ⟨rfl,
        .buffer b.inBuffer, by simp [KernelCommand.source, hb], ?_, rfl⟩⟩))
      exact ⟨hpacks.argBuf, hpacks.deferred, hpacks.addresses, hpacks.nodes, hpacks.fits⟩

theorem packPorts_packs (node : KernelCommand) (skip : List String) : ∀ (ps : List Port)
    (l : ArgLayout) (n : Nat) (s : Lowering),
    Ensures (ps.foldlM (packPort node skip) (l, n)) s fun acc t =>
      ∃ as, argsOf node skip l ps = .ok as ∧ Packs s t as ∧ acc.2 = n + widths as
  | [], l, n, s => ensures_pure ⟨[], rfl, .nil s, rfl⟩
  | p :: ps, l, n, s => by
    rw [foldlM_cons]
    refine bind ((packPort_packed node skip l n p s).mono fun acc t h => ?_)
    obtain ⟨base, hbase, h⟩ := h
    obtain ⟨l', n'⟩ := acc
    refine (packPorts_packs node skip ps l' n' t).mono fun acc u h' => ?_
    obtain ⟨as, has, hpacks, hn⟩ := h'
    rcases h with ⟨hskip, hp, hn'⟩ | ⟨hskip, src, hsrc, hp, hn'⟩
    · refine ⟨as, ?_, hp.trans hpacks, by rw [hn, ← hn']⟩
      simp only [argsOf, hbase, hskip, if_true]
      exact has
    · refine ⟨_ :: as, ?_, hp.trans hpacks, ?_⟩
      · simp only [argsOf, hbase, hskip, hsrc]
        show (argsOf node skip l' ps >>= _) = _
        rw [has]
        rfl
      · have hn' : n' = n + p.words := hn'
        rw [hn, hn', widths_cons, Arg.width_of_source hsrc, Nat.add_assoc]

theorem packKernelArgs_packs (dev : Device) (node : KernelCommand) (skip : List String)
    (s : Lowering) : Ensures (packKernelArgs dev node skip) s fun n t =>
      ∃ as, kernelArgs dev node skip = .ok as ∧ Packs s t as ∧ n = widths as ∧ n ≤ 0xFFFF := by
  rw [packKernelArgs_eq]
  refine bind ((packPorts_packs node skip _ _ 0 s).mono fun acc t h => ?_)
  obtain ⟨as, has, hpacks, hn⟩ := h
  refine ensures_ite (fun _ => bind ensures_throw) fun hle => ?_
  exact ensures_pure ⟨as, has, hpacks, by rw [hn, Nat.zero_add], Nat.le_of_not_lt hle⟩

/-! ## The image's arguments

An image is assembled from the packets of kernels, each of which packs its arguments, and from
steps that leave the arguments alone. -/

/-- A kernel that was packed, and its packet. -/
structure Job where
  command : KernelCommand
  skip : List String
  dispatch : Rp1.KernelDispatch

/-- What the packer reads and writes. -/
def Lowering.packing (s : Lowering) :
    List U32 × List DeferredScalar × List DeferredBufferAddress :=
  (s.argBuf, s.deferred, s.deferredBufferAddresses)

def IsDispatch (n : Node) : Prop := ∃ kd, n.payload = .kernelDispatch kd

/-- The jobs of an image under construction, in packing order. -/
inductive Assembled (dev : Device) : List Job → Lowering → Prop where
  | empty {s : Lowering} (hnodes : s.nodes = []) (hpacking : s.packing = ([], [], [])) :
      Assembled dev [] s
  | other {jobs : List Job} {s t : Lowering} (h : Assembled dev jobs s)
      (hpacking : t.packing = s.packing)
      (hnodes : ∀ n ∈ t.nodes, n ∈ s.nodes ∨ ¬ IsDispatch n) : Assembled dev jobs t
  | kernel {jobs : List Job} {s t : Lowering} {k : KernelCommand} {await done : BarrierRef}
      {skip : List String} {n : Node} {kd : Rp1.KernelDispatch} {i : Nat}
      (h : Assembled dev jobs s)
      (hrun : (emitKernelPacket dev k await done skip).run s = .ok (i, t))
      (hnode : t.nodes[i]? = some n) (hkd : n.payload = .kernelDispatch kd) :
      Assembled dev (jobs ++ [⟨k, skip, kd⟩]) t

/-- Where the arguments of a job lie among all arguments. -/
structure Job.Lies (dev : Device) (job : Job) (as all : List Arg) (pre post : List Arg) : Prop where
  args : kernelArgs dev job.command job.skip = .ok as
  split : all = pre ++ as ++ post
  offset : job.dispatch.argBufferOffset = BitVec.ofNat 32 (8 * widths pre)
  count : job.dispatch.argCount = BitVec.ofNat 16 (widths as)
  count_le : widths as ≤ 0xFFFF

/-- The arguments `all` are what the image holds, and each job's are among them. -/
structure Lowering.Holds (dev : Device) (jobs : List Job) (s : Lowering) (all : List Arg) :
    Prop where
  packing : s.packing = (Lib.interleave (pairsOf blank all), entriesAt Arg.deferredScalar 0 all,
    entriesAt Arg.deferredAddress 0 all)
  fits : s.argBuf.length ≤ argBufferWords
  lies : ∀ job ∈ jobs, ∃ as pre post, job.Lies dev as all pre post
  dispatches : ∀ n ∈ s.nodes, ∀ kd, n.payload = .kernelDispatch kd →
    ∃ job ∈ jobs, job.dispatch = kd

theorem emitKernelPacket_packs (dev : Device) (k : KernelCommand) (await done : BarrierRef)
    (skip : List String) (s : Lowering) :
    Ensures (emitKernelPacket dev k await done skip) s fun i t => ∃ as kd u,
      kernelArgs dev k skip = .ok as ∧ Packs s u as ∧ widths as ≤ 0xFFFF ∧
      t = { u with nodes := s.nodes ++ [packet await done (.kernelDispatch kd)
        Rp1.flagHaltOnError] } ∧ i = s.nodes.length ∧
      kd.argBufferOffset = BitVec.ofNat 32 (s.argBuf.length * 4) ∧
      kd.argCount = BitVec.ofNat 16 (widths as) := by
  unfold emitKernelPacket
  refine bind (ensures_lift fun loc _ => ?_)
  refine bind (ensures_get ?_)
  refine bind ((packKernelArgs_packs dev k skip s).mono fun n u h => ?_)
  obtain ⟨as, has, hpacks, rfl, hle⟩ := h
  refine bind (ensures_get (bind (ensures_set (ensures_pure ?_))))
  exact ⟨as, _, u, has, hpacks, hle, by rw [hpacks.nodes], by rw [hpacks.nodes], rfl, rfl⟩

theorem Lowering.Holds.even {dev : Device} {jobs : List Job} {s : Lowering} {all : List Arg}
    (h : s.Holds dev jobs all) : s.argBuf.length = 2 * widths all := by
  have hbuf : s.argBuf = _ := congrArg Prod.fst h.packing
  rw [hbuf, Lib.length_interleave, length_pairsOf]

theorem Job.Lies.append {dev : Device} {job : Job} {as all pre post : List Arg}
    (h : job.Lies dev as all pre post) (more : List Arg) :
    job.Lies dev as (all ++ more) pre (post ++ more) :=
  ⟨h.args, by rw [h.split, append_assoc], h.offset, h.count, h.count_le⟩

theorem Assembled.holds {dev : Device} {jobs : List Job} {s : Lowering}
    (h : Assembled dev jobs s) : ∃ all, s.Holds dev jobs all := by
  induction h with
  | @empty s hnodes hpacking =>
    have hbuf : s.argBuf = [] := congrArg Prod.fst hpacking
    refine ⟨[], hpacking, by rw [hbuf]; exact Nat.zero_le _, by simp, ?_⟩
    rw [hnodes]
    simp
  | @other jobs s t h hpacking hnodes ih =>
    obtain ⟨all, ih⟩ := ih
    have hbuf : t.argBuf = s.argBuf := congrArg Prod.fst hpacking
    refine ⟨all, hpacking.trans ih.packing, by rw [hbuf]; exact ih.fits, ih.lies, ?_⟩
    intro n hn kd hkd
    rcases hnodes n hn with hn | hn
    · exact ih.dispatches n hn kd hkd
    · exact absurd ⟨kd, hkd⟩ hn
  | @kernel jobs s t k await done skip n kd i h hrun hnode hkd ih =>
    obtain ⟨all, ih⟩ := ih
    obtain ⟨as, kd', u, has, hpacks, hle, rfl, rfl, hoff, hcount⟩ :=
      emitKernelPacket_packs dev k await done skip s i t hrun
    -- the packet just emitted is the job's
    have hsame : kd' = kd := by
      rw [List.getElem?_concat_length] at hnode
      cases hnode
      cases hkd
      rfl
    subst hsame
    have heven := ih.even
    refine ⟨all ++ as, ?_, hpacks.fits ih.fits, ?_, ?_⟩
    · have hbuf : s.argBuf = _ := congrArg Prod.fst ih.packing
      have hdef : s.deferred = _ := congrArg (fun p => p.2.1) ih.packing
      have haddr : s.deferredBufferAddresses = _ := congrArg (fun p => p.2.2) ih.packing
      show (u.argBuf, u.deferred, u.deferredBufferAddresses) = _
      rw [hpacks.argBuf, hpacks.deferred _ heven, hpacks.addresses _ heven, hbuf, hdef, haddr,
        pairsOf_append, interleave_append, entriesAt_append, entriesAt_append, Nat.zero_add]
    · intro job hjob
      rcases mem_append.mp hjob with hjob | hjob
      · obtain ⟨bs, pre, post, hlies⟩ := ih.lies job hjob
        exact ⟨bs, pre, post ++ as, hlies.append as⟩
      · rw [mem_singleton] at hjob
        subst hjob
        refine ⟨as, all, [], has, (append_nil _).symm, ?_, hcount, hle⟩
        rw [hoff, heven]
        congr 1
        omega
    · intro m hm kd hkd
      rcases mem_append.mp hm with hm | hm
      · obtain ⟨job, hjob, hd⟩ := ih.dispatches m hm kd hkd
        exact ⟨job, mem_append_left _ hjob, hd⟩
      · rw [mem_singleton] at hm
        subst hm
        cases hkd
        exact ⟨_, mem_append_right _ (mem_singleton_self _), rfl⟩

end Slash.Host
