import Slash.Host.Args
import Slash.Rp1.Scan

/-!
# Launch-time arguments, from the host's map to the kernel's registers

`resolveDeferredScalars` and `resolveDeferredBufferAddresses` write the launch's values over the
zeros the packer left, on a buffer that may hold the values of earlier launches. RP1 reads the
pairs back and writes them to the kernel.
-/

namespace Slash.Host

open Lib List
open Rp1

/-! ## The words of a value -/

/-- `writeScalarToArgWords`, over `words[2] = {0, 0}`. -/
def writeScalarToArgWords (type : ScalarType) (bits : U64) : U32 × U32 :=
  match type with
  | .u8 => ((bits.setWidth 8).setWidth 32, 0)
  | .u16 => ((bits.setWidth 16).setWidth 32, 0)
  | .u32 | .f32 | .i32 => (bits.setWidth 32, 0)
  | .i8 => ((bits.setWidth 8).signExtend 32, 0)
  | .i16 => ((bits.setWidth 16).signExtend 32, 0)
  | .u64 | .i64 | .f64 => (bits.setWidth 32, (bits >>> 32).setWidth 32)

def writeU64ToArgWords (value : U64) : U32 × U32 :=
  (value.setWidth 32, (value >>> 32).setWidth 32)

/-- `words[w]`. -/
def wordAt (words : U32 × U32) (w : Nat) : U32 := if w = 0 then words.1 else words.2

/-- The stores of `width` words at a stride of two. -/
def strideStores (first width : Nat) (words : Nat → U32) : List (Nat × U32) :=
  (List.range width).map fun w => (first + 2 * w, words w)

/-! ## The two passes -/

def DeferredScalar.stores (d : DeferredScalar) (bits : U64) : List (Nat × U32) :=
  strideStores d.argWordOffset (scalarWidthInWords d.type)
    (wordAt (writeScalarToArgWords d.type bits))

def DeferredBufferAddress.stores (d : DeferredBufferAddress) (addr : U64) : List (Nat × U32) :=
  strideStores d.argWordOffset 2 (wordAt (writeU64ToArgWords addr))

def DeferredScalar.value (d : DeferredScalar) (values : ScalarValues) : Except String U64 :=
  match values.find d.key with
  | none => .error ("FpgaDevicePlan: global scalar bound to port '" ++ d.diagnostic ++
      "' is not set in the graph scalar map (key='" ++ scalarKeyText (some d.key) ++ "')")
  | some bits => .ok bits

/-- One iteration of `resolveDeferredScalars`. -/
def resolveDeferredScalar (values : ScalarValues) (buf : List U32) (d : DeferredScalar) :
    Except String (List U32) := do
  let bits ← d.value values
  pure (scatter buf (d.stores bits))

/-- `resolveDeferredScalars`; the scalar map may be missing. -/
def resolveDeferredScalars (values : Option ScalarValues) (ds : List DeferredScalar)
    (buf : List U32) : Except String (List U32) :=
  if ds = [] then .ok buf
  else
    match values with
    | none => .error ("FpgaDevicePlan: deferred scalar resolution requires a scalar map " ++
        "(Rp1QueueProgram::scalarValues was null at compile time)")
    | some values => ds.foldlM (resolveDeferredScalar values) buf

/-- The address of a buffer at this launch, for the argument with the given diagnostic: the size
may not resolve, and allocation may fail. -/
abbrev Addresses := GraphBuffer → String → Except String U64

/-- One iteration of `resolveDeferredBufferAddresses`. -/
def resolveDeferredBufferAddress (address : Addresses) (buf : List U32)
    (d : DeferredBufferAddress) : Except String (List U32) := do
  let addr ← address d.buffer d.diagnostic
  pure (scatter buf (d.stores addr))

def resolveDeferredBufferAddresses (address : Addresses) (ds : List DeferredBufferAddress)
    (buf : List U32) : Except String (List U32) :=
  ds.foldlM (resolveDeferredBufferAddress address) buf

/-- What a launch does to the argument buffer of the plan. -/
def Lowering.launchArgs (plan : Lowering) (values : Option ScalarValues) (address : Addresses)
    (buf : List U32) : Except String (List U32) := do
  let buf ← resolveDeferredScalars values plan.deferred buf
  resolveDeferredBufferAddresses address plan.deferredBufferAddresses buf

/-- The argument buffers a plan may hold: as built, and after each patch of a launch, successful
or not. -/
inductive HeldArgs (plan : Lowering) : List U32 → Prop where
  | built : HeldArgs plan plan.argBuf
  | scalar {buf : List U32} {d : DeferredScalar} {bits : U64} (h : HeldArgs plan buf)
      (hd : d ∈ plan.deferred) : HeldArgs plan (scatter buf (d.stores bits))
  | address {buf : List U32} {d : DeferredBufferAddress} {addr : U64} (h : HeldArgs plan buf)
      (hd : d ∈ plan.deferredBufferAddresses) : HeldArgs plan (scatter buf (d.stores addr))

/-! ## What the registers should get -/

def Arg.words (values : Option ScalarValues) (address : Addresses) (a : Arg) :
    Option (Nat → U32) :=
  match a.source with
  | .scalar key type => (values.bind fun values => values.find key).map fun bits =>
      wordAt (writeScalarToArgWords type bits)
  | .buffer b => (address b a.diagnostic).toOption.map fun addr => wordAt (writeU64ToArgWords addr)

/-- The register writes of a kernel at a launch, as offsets from its base: in descriptor order,
each argument's words at its register and the four bytes after it. -/
def kernelWrites (dev : Device) (k : KernelCommand) (skip : List String)
    (values : Option ScalarValues) (address : Addresses) : Option (List (U32 × U32)) := do
  let as ← (kernelArgs dev k skip).toOption
  let ws ← as.mapM fun a => (a.words values address).map a.pairs
  pure ws.flatten

/-! ## A launch as stores -/

theorem DeferredScalar.value_eq_ok {d : DeferredScalar} {values : ScalarValues} {bits : U64} :
    d.value values = .ok bits ↔ values.find d.key = some bits := by
  unfold DeferredScalar.value
  split <;> simp_all

theorem Lowering.launchArgs_ok {plan : Lowering} {values : Option ScalarValues}
    {address : Addresses} {buf buf' : List U32}
    (h : plan.launchArgs values address buf = .ok buf') :
    ∃ (bits : DeferredScalar → U64) (addr : DeferredBufferAddress → U64),
      (∀ d ∈ plan.deferred, (values.bind fun values => values.find d.key) = some (bits d)) ∧
      (∀ d ∈ plan.deferredBufferAddresses, address d.buffer d.diagnostic = .ok (addr d)) ∧
      buf' = scatter buf ((plan.deferred.flatMap fun d => d.stores (bits d)) ++
        plan.deferredBufferAddresses.flatMap fun d => d.stores (addr d)) := by
  obtain ⟨mid, hscalars, haddresses⟩ := bind_ok h
  obtain ⟨addr, haddr, rfl⟩ := foldlM_scatter haddresses
  have hmid : ∃ bits : DeferredScalar → U64,
      (∀ d ∈ plan.deferred, (values.bind fun values => values.find d.key) = some (bits d)) ∧
      mid = scatter buf (plan.deferred.flatMap fun d => d.stores (bits d)) := by
    unfold resolveDeferredScalars at hscalars
    split at hscalars
    · rename_i hnil
      cases hscalars
      exact ⟨fun _ => 0, by simp [hnil], by simp [hnil]⟩
    · split at hscalars
      · cases hscalars
      · obtain ⟨bits, hbits, rfl⟩ := foldlM_scatter hscalars
        exact ⟨bits, fun d hd => DeferredScalar.value_eq_ok.mp (hbits d hd), rfl⟩
  obtain ⟨bits, hbits, rfl⟩ := hmid
  exact ⟨bits, addr, hbits, haddr, (scatter_append _ _ _).symm⟩

/-! ## The buffer a launch leaves -/

section Held

variable {dev : Device} {jobs : List Job} {plan : Lowering} {all : List Arg} {buf : List U32}

theorem mem_strideStores {first width : Nat} {words : Nat → U32} {v : Nat × U32} :
    v ∈ strideStores first width words ↔ ∃ w < width, v = (first + 2 * w, words w) := by
  simp only [strideStores, mem_map, mem_range]
  constructor
  · rintro ⟨w, hw, rfl⟩
    exact ⟨w, hw, rfl⟩
  · rintro ⟨w, hw, rfl⟩
    exact ⟨w, hw, rfl⟩

variable (h : plan.Holds dev jobs all)
include h

theorem Lowering.Holds.scalar {d : DeferredScalar} :
    d ∈ plan.deferred ↔ ∃ pre a post key type, all = pre ++ a :: post ∧
      a.source = .scalar key type ∧ d = ⟨key, type, 2 * widths pre + 1, a.diagnostic⟩ := by
  have hdef : plan.deferred = _ := congrArg (fun p => p.2.1) h.packing
  rw [hdef, mem_entriesAt]
  constructor
  · rintro ⟨pre, a, post, hsplit, hd⟩
    unfold Arg.deferredScalar at hd
    split at hd
    · rename_i key type hsrc
      rw [mem_singleton, Nat.zero_add] at hd
      exact ⟨pre, a, post, key, type, hsplit, hsrc, hd⟩
    · cases hd
  · rintro ⟨pre, a, post, key, type, hsplit, hsrc, rfl⟩
    exact ⟨pre, a, post, hsplit, by simp [Arg.deferredScalar, hsrc]⟩

theorem Lowering.Holds.address {d : DeferredBufferAddress} :
    d ∈ plan.deferredBufferAddresses ↔ ∃ pre a post b, all = pre ++ a :: post ∧
      a.source = .buffer b ∧ d = ⟨b, 2 * widths pre + 1, a.diagnostic⟩ := by
  have hdef : plan.deferredBufferAddresses = _ := congrArg (fun p => p.2.2) h.packing
  rw [hdef, mem_entriesAt]
  constructor
  · rintro ⟨pre, a, post, hsplit, hd⟩
    unfold Arg.deferredAddress at hd
    split at hd
    · cases hd
    · rename_i b hsrc
      rw [mem_singleton, Nat.zero_add] at hd
      exact ⟨pre, a, post, b, hsplit, hsrc, hd⟩
  · rintro ⟨pre, a, post, b, hsplit, hsrc, rfl⟩
    exact ⟨pre, a, post, hsplit, by simp [Arg.deferredAddress, hsrc]⟩

theorem HeldArgs.offsets (hheld : HeldArgs plan buf) :
    buf.length = plan.argBuf.length ∧ ∀ k, buf[2 * k]? = plan.argBuf[2 * k]? := by
  have hodd {buf : List U32} {q width : Nat} {words : Nat → U32} (k : Nat) :
      (scatter buf (strideStores (2 * q + 1) width words))[2 * k]? = buf[2 * k]? := by
    refine scatter_apply_of_not_mem fun v hv => ?_
    obtain ⟨w, -, rfl⟩ := mem_strideStores.mp hv
    simp only
    omega
  induction hheld with
  | built => exact ⟨rfl, fun _ => rfl⟩
  | scalar _ hd ih =>
    obtain ⟨pre, a, post, key, type, -, -, rfl⟩ := h.scalar.mp hd
    exact ⟨(length_scatter _ _).trans ih.1, fun k => (hodd k).trans (ih.2 k)⟩
  | address _ hd ih =>
    obtain ⟨pre, a, post, b, -, -, rfl⟩ := h.address.mp hd
    exact ⟨(length_scatter _ _).trans ih.1, fun k => (hodd k).trans (ih.2 k)⟩

/-- The words the launch stores for an argument whose first pair is number `q`. -/
def Arg.stored (bits : DeferredScalar → U64) (addr : DeferredBufferAddress → U64) (q : Nat)
    (a : Arg) : Nat → U32 :=
  match a.source with
  | .scalar key type =>
    wordAt (writeScalarToArgWords type (bits ⟨key, type, 2 * q + 1, a.diagnostic⟩))
  | .buffer b => wordAt (writeU64ToArgWords (addr ⟨b, 2 * q + 1, a.diagnostic⟩))

def Lowering.stores (plan : Lowering) (bits : DeferredScalar → U64)
    (addr : DeferredBufferAddress → U64) : List (Nat × U32) :=
  (plan.deferred.flatMap fun d => d.stores (bits d)) ++
    plan.deferredBufferAddresses.flatMap fun d => d.stores (addr d)

/-- A launch stores every word of every argument, and nothing else. -/
theorem Lowering.Holds.mem_stores {bits : DeferredScalar → U64}
    {addr : DeferredBufferAddress → U64} {v : Nat × U32} :
    v ∈ plan.stores bits addr ↔ ∃ pre a post w, all = pre ++ a :: post ∧ w < a.width ∧
      v = (2 * (widths pre + w) + 1, a.stored bits addr (widths pre) w) := by
  have hpos (q w : Nat) : 2 * (q + w) + 1 = 2 * q + 1 + 2 * w := by omega
  simp only [hpos, Lowering.stores, mem_append, mem_flatMap]
  constructor
  · rintro (⟨d, hd, hv⟩ | ⟨d, hd, hv⟩)
    · obtain ⟨pre, a, post, key, type, hsplit, hsrc, rfl⟩ := h.scalar.mp hd
      obtain ⟨w, hw, rfl⟩ := mem_strideStores.mp hv
      exact ⟨pre, a, post, w, hsplit, by simp only [Arg.width, hsrc]; exact hw,
        by simp only [Arg.stored, hsrc]⟩
    · obtain ⟨pre, a, post, b, hsplit, hsrc, rfl⟩ := h.address.mp hd
      obtain ⟨w, hw, rfl⟩ := mem_strideStores.mp hv
      exact ⟨pre, a, post, w, hsplit, by simp only [Arg.width, hsrc]; exact hw,
        by simp only [Arg.stored, hsrc]⟩
  · rintro ⟨pre, a, post, w, hsplit, hw, rfl⟩
    cases hsrc : a.source with
    | scalar key type =>
      simp only [Arg.width, hsrc] at hw
      exact .inl ⟨_, h.scalar.mpr ⟨pre, a, post, key, type, hsplit, hsrc, rfl⟩,
        mem_strideStores.mpr ⟨w, hw, by simp only [Arg.stored, hsrc]⟩⟩
    | buffer b =>
      simp only [Arg.width, hsrc] at hw
      exact .inr ⟨_, h.address.mpr ⟨pre, a, post, b, hsplit, hsrc, rfl⟩,
        mem_strideStores.mpr ⟨w, hw, by simp only [Arg.stored, hsrc]⟩⟩

/-- The words of an argument; zeros if the launch has none. -/
def Arg.wordsOr (values : Option ScalarValues) (address : Addresses) (a : Arg) : Nat → U32 :=
  (a.words values address).getD (blank a)

/-- A launch that succeeds leaves the pairs of all arguments, whatever earlier launches left. -/
theorem HeldArgs.launch {values : Option ScalarValues} {address : Addresses} {buf' : List U32}
    (hheld : HeldArgs plan buf) (hl : plan.launchArgs values address buf = .ok buf') :
    (∀ a ∈ all, a.words values address = some (a.wordsOr values address)) ∧
      buf' = Lib.interleave (pairsOf (Arg.wordsOr values address) all) := by
  obtain ⟨bits, addr, hbits, haddr, hbuf'⟩ := plan.launchArgs_ok hl
  obtain ⟨hlen, hoffsets⟩ := hheld.offsets h
  have hbuf : plan.argBuf = Lib.interleave (pairsOf blank all) := congrArg Prod.fst h.packing
  have hwords {pre post : List Arg} {a : Arg} (hsplit : all = pre ++ a :: post) :
      a.words values address = some (a.stored bits addr (widths pre)) := by
    unfold Arg.words Arg.stored
    split
    · rename_i key type hsrc
      rw [hbits _ (h.scalar.mpr ⟨pre, a, post, key, type, hsplit, hsrc, rfl⟩)]
      rfl
    · rename_i b hsrc
      have hb := haddr _ (h.address.mpr ⟨pre, a, post, b, hsplit, hsrc, rfl⟩)
      simp only at hb
      rw [hb]
      rfl
  have hstored {pre post : List Arg} {a : Arg} (hsplit : all = pre ++ a :: post) :
      a.wordsOr values address = a.stored bits addr (widths pre) := by
    rw [Arg.wordsOr, hwords hsplit]
    rfl
  refine ⟨fun a ha => ?_, hbuf'.trans (scatter_eq (fun v hv => ?_) ?_ fun p => ?_)⟩
  · obtain ⟨pre, post, hsplit⟩ := append_of_mem ha
    rw [hwords hsplit, hstored hsplit]
  · -- every store agrees with the pairs
    obtain ⟨pre, a, post, w, hsplit, hw, rfl⟩ := h.mem_stores.mp hv
    rw [interleave_odd, ← hstored hsplit, hsplit, pairsOf_getElem? hw]
    rfl
  · rw [hlen, hbuf, Lib.length_interleave, Lib.length_interleave, length_pairsOf, length_pairsOf]
  · by_cases hp : p < 2 * widths all
    · have hlt : p / 2 < widths all := by omega
      obtain ⟨pre, a, post, w, hsplit, hw, hk⟩ := exists_arg_of_lt hlt
      obtain heven | hodd : p = 2 * (widths pre + w) ∨ p = 2 * (widths pre + w) + 1 := by omega
      · -- the offset is there already
        left
        rw [heven, hoffsets, hbuf, interleave_even, interleave_even, hsplit, pairsOf_getElem? hw,
          pairsOf_getElem? hw]
        rfl
      · -- the value is stored
        right
        rw [hodd]
        exact ⟨_, h.mem_stores.mpr ⟨pre, a, post, w, hsplit, hw, rfl⟩⟩
    · left
      rw [List.getElem?_eq_none, List.getElem?_eq_none]
      · rw [Lib.length_interleave, length_pairsOf]
        omega
      · rw [hlen, hbuf, Lib.length_interleave, length_pairsOf]
        omega

end Held

/-! ## The round trip -/

/-- `launch_kernel` on the bus: a read of the control register, the pairs, `ap_start`. -/
theorem launchKernel_bus (s : Rp1.St) (inp : Rp1.Input) (i : Nat) (kd : Rp1.KernelDispatch) :
    (s.launchKernel inp i kd).bus = .write kd.kernelBaseAddr 1 ::
      ((s.argPairs kd).map fun p => Rp1.BusOp.write (kd.kernelBaseAddr + p.1) p.2).reverse ++
        .read kd.kernelBaseAddr (inp.mmio kd.kernelBaseAddr) :: s.bus := by
  have hwrites (ps : List (U32 × U32)) (t : Rp1.St) :
      (ps.foldl (fun s p => s.mmioWrite (kd.kernelBaseAddr + p.1) p.2) t).bus =
        (ps.map fun p => Rp1.BusOp.write (kd.kernelBaseAddr + p.1) p.2).reverse ++ t.bus := by
    induction ps generalizing t with
    | nil => rfl
    | cons p ps ih =>
      rw [foldl_cons, ih, map_cons, reverse_cons, append_assoc]
      rfl
  simp only [Rp1.St.launchKernel, Rp1.St.note, Rp1.St.mmioWrite, Rp1.St.mmioRead] at hwrites ⊢
  rw [hwrites]
  rfl

theorem pairs_read_back {args : Nat → U32} {pre mid post : List (U32 × U32)}
    (h : ∀ k < (Lib.interleave (pre ++ mid ++ post)).length,
      args k = (Lib.interleave (pre ++ mid ++ post)).getD k 0) :
    (List.range mid.length).map (fun k =>
      (args (2 * pre.length + 2 * k), args (2 * pre.length + 2 * k + 1))) = mid := by
  refine ext_getElem (by simp) fun k hk hk' => ?_
  have hlen := Lib.length_interleave (pre ++ mid ++ post)
  simp only [length_append] at hlen
  have hat : (pre ++ mid ++ post)[pre.length + k]? = some mid[k] := by
    rw [append_assoc, List.getElem?_append_right (by omega), Nat.add_sub_cancel_left,
      List.getElem?_append_left hk', List.getElem?_eq_getElem hk']
  have heven : 2 * pre.length + 2 * k = 2 * (pre.length + k) := by omega
  simp only [getElem_map, getElem_range]
  rw [h _ (by omega), h _ (by omega), heven, getD_eq_getElem?_getD,
    getD_eq_getElem?_getD, interleave_even, interleave_odd, hat]
  rfl

theorem mapM_words {values : Option ScalarValues} {address : Addresses} {as : List Arg}
    (h : ∀ a ∈ as, a.words values address = some (a.wordsOr values address)) :
    (as.mapM fun a => (a.words values address).map a.pairs) =
      some (as.map fun a => a.pairs (a.wordsOr values address)) := by
  induction as with
  | nil => rfl
  | cons a as ih =>
    rw [mapM_cons, ih fun b hb => h b (mem_cons_of_mem _ hb), h a mem_cons_self]
    rfl

/-- The argument ABI. Kernels are packed in any order with any sets of skipped ports; the plan is
launched any number of times, with any scalar map and any buffer addresses. Then every dispatch
writes exactly its kernel's arguments, in descriptor order and at their registers, and then
`ap_start`; its pairs are aligned and inside the argument region. -/
theorem kernel_arguments_round_trip {dev : Device} {jobs : List Job} {plan : Lowering}
    (hplan : Assembled dev jobs plan) {buf buf' : List U32} (hheld : HeldArgs plan buf)
    {values : Option ScalarValues} {address : Addresses}
    (hlaunch : plan.launchArgs values address buf = .ok buf') {s : Rp1.St}
    (hargs : ∀ k < buf'.length, s.args k = buf'.getD k 0) (inp : Rp1.Input) (i : Nat) :
    (∀ n ∈ plan.nodes, ∀ kd, n.payload = .kernelDispatch kd → ∃ job ∈ jobs, job.dispatch = kd) ∧
    ∀ job ∈ jobs, ∃ ws, kernelWrites dev job.command job.skip values address = some ws ∧
      (s.launchKernel inp i job.dispatch).bus = .write job.dispatch.kernelBaseAddr 1 ::
        (ws.map fun w => Rp1.BusOp.write (job.dispatch.kernelBaseAddr + w.1) w.2).reverse ++
          .read job.dispatch.kernelBaseAddr (inp.mmio job.dispatch.kernelBaseAddr) :: s.bus ∧
      8 ∣ job.dispatch.argBufferOffset.toNat ∧
      job.dispatch.argBufferOffset.toNat + 8 * job.dispatch.argCount.toNat ≤ 0x100000 := by
  obtain ⟨all, hall⟩ := hplan.holds
  obtain ⟨hwords, rfl⟩ := hheld.launch hall hlaunch
  refine ⟨hall.dispatches, fun job hjob => ?_⟩
  obtain ⟨as, pre, post, hlies⟩ := hall.lies job hjob
  obtain ⟨hkernel, rfl, hoffset, hcount, hle⟩ := hlies
  have hregion : 2 * (widths pre + widths as + widths post) ≤ 0x40000 := by
    have h := hall.fits
    rw [hall.even, widths_append, widths_append] at h
    exact h
  have hoff : job.dispatch.argBufferOffset.toNat = 8 * widths pre := by
    rw [hoffset, BitVec.toNat_ofNat, Nat.mod_eq_of_lt (by omega)]
  have hcnt : job.dispatch.argCount.toNat = widths as := by
    rw [hcount, BitVec.toNat_ofNat, Nat.mod_eq_of_lt (by omega)]
  have hpairs : s.argPairs job.dispatch = pairsOf (Arg.wordsOr values address) as := by
    rw [pairsOf_append, pairsOf_append] at hargs
    have h := pairs_read_back hargs
    rw [length_pairsOf, length_pairsOf] at h
    have hquot : 8 * widths pre / 4 = 2 * widths pre := by omega
    rw [Rp1.St.argPairs, hoff, hcnt, hquot]
    exact h
  refine ⟨pairsOf (Arg.wordsOr values address) as, ?_, ?_, ?_, ?_⟩
  · have hmap := mapM_words fun a (ha : a ∈ as) => hwords a (by simp [ha])
    rw [kernelWrites, hkernel]
    show (Option.bind (as.mapM fun a => (a.words values address).map a.pairs) fun ws =>
      some ws.flatten) = _
    rw [hmap]
    rfl
  · rw [launchKernel_bus, hpairs]
  · rw [hoff]
    exact Nat.dvd_mul_right 8 _
  · rw [hoff, hcnt]
    omega

/-! ### A launch

A kernel with a 16-bit count, a port that is forwarded on the device, and one buffer. -/

def scaleDevice : Device where
  resolveKernelLocation := fun _ => .ok ⟨0x80000000#32, 0⟩
  kernelArgOffsets := fun _ => [("n", 0x10#32), ("seed", 0x18#32), ("x", 0x20#32)]
  outputScalarRegOffset := fun _ _ => .error "no output scalars"
  imageNumericId := fun _ => 0
  sentinelSlot := 255
  sentinelValue := 1

def scaleKernel : KernelCommand where
  id := "scale"
  kernel := {
    name := "scale"
    inputScalars := [⟨"n", .u16⟩, ⟨"seed", .u32⟩]
    inputs := ["x"] }
  ioMap := {
    inputScalars := [("n", ⟨0, "n"⟩), ("seed", ⟨0, "seed"⟩)]
    inputs := [("x", ⟨0, "x", true⟩)] }

/-- The plan that holds this kernel's packet only. -/
def scalePlan : Lowering :=
  match (emitKernelPacket scaleDevice scaleKernel {} ⟨0, 1⟩ ["seed"]).run {} with
  | .ok (_, plan) => plan
  | .error _ => {}

def scaleDispatch : Rp1.KernelDispatch where
  kernelBaseAddr := 0x80000000#32
  argBufferOffset := 0
  argCount := 3
  timeoutCycles := 0
  expectedImageId := 0

/-- The buffer after a launch with `n = 0x12345` and the buffer at `0x4000000040`. -/
def scaleArgs : List U32 := [0x10, 0x2345, 0x20, 0x40, 0x24, 0x40]

def scaleStart : Rp1.St :=
  { Rp1.St.fresh (nodeAt scalePlan.nodes) 1 16 with args := fun k => scaleArgs.getD k 0 }

theorem scale_arguments_round_trip : ∃ ws,
    kernelWrites scaleDevice scaleKernel ["seed"] (some [("n", 0x12345#64)])
      (fun _ _ => .ok 0x4000000040#64) = some ws ∧
    (scaleStart.launchKernel {} 0 scaleDispatch).bus = .write 0x80000000#32 1 ::
      (ws.map fun w => Rp1.BusOp.write (0x80000000#32 + w.1) w.2).reverse ++
        .read 0x80000000#32 0 :: [] := by
  have hrun : (emitKernelPacket scaleDevice scaleKernel {} ⟨0, 1⟩ ["seed"]).run {} =
      .ok (0, scalePlan) := rfl
  have hnode : scalePlan.nodes[0]? =
      some (packet {} ⟨0, 1⟩ (.kernelDispatch scaleDispatch) Rp1.flagHaltOnError) := rfl
  have hplan : Assembled scaleDevice ([] ++ [⟨scaleKernel, ["seed"], scaleDispatch⟩]) scalePlan :=
    .kernel (.empty rfl rfl) hrun hnode rfl
  have hlaunch : scalePlan.launchArgs (some [("n", 0x12345#64)])
      (fun _ _ => .ok 0x4000000040#64) scalePlan.argBuf = .ok scaleArgs := by decide +kernel
  obtain ⟨-, h⟩ := kernel_arguments_round_trip hplan .built hlaunch
    (fun k _ => (rfl : scaleStart.args k = scaleArgs.getD k 0)) {} 0
  obtain ⟨ws, hws, hbus, -, -⟩ := h _ mem_cons_self
  exact ⟨ws, hws, hbus⟩

end Slash.Host
