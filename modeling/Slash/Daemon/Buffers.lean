import Slash.Daemon.Ownership

/-!
# Buffers over whole runs

The memory map, the buffer lists and the queue pairs of every device agree in every reachable
state. A buffer that could not be made leaves them as they were, and a connection that is gone has
nothing in them; what the driver would not delete is the one exception to both.
-/

namespace Slash.Daemon

open Lib
open Libvrtd (Ret)
open Vrtd (U64 AllocationType MemoryClass subregion subregionsPerRegion)

def Request.opensBuffer : Request → Bool
  | .bufferOpen .. | .bufferOpenRaw .. => true
  | _ => false

/-! ## Creations that fail -/

/-- Every device is as it was, but for queue pairs that the driver kept. -/
def AsBefore (k : Driver) (w w' : World) : Prop :=
  ∀ d' ∈ w'.devices, ∃ d ∈ w.devices, Unmade d d' k

section Failed

variable {w : World} {k : Answers}

theorem AsBefore.refl (k : Driver) (w : World) : AsBefore k w w :=
  fun d hd => ⟨d, hd, .same rfl rfl rfl rfl rfl rfl rfl⟩

theorem AsBefore.device {k : Driver} (h : w.Sound) {d : Device} (hd : d ∈ w.devices)
    {f : Device → Device} {t : Handles Descriptor} {next : Nat} {l : Ledger Descriptor}
    (hunmade : Unmade d (f d) k) :
    AsBefore k w ({ w with fds := t, next := next, ledger := l }.updDevice d.id f) := by
  intro x hx
  rcases (mem_updDevice (w := w) h hd).mp hx with rfl | ⟨hx, -⟩
  · exact ⟨d, hd, hunmade⟩
  · exact ⟨x, hx, .same rfl rfl rfl rfl rfl rfl rfl⟩

/-- A code other than success means that the devices are as they were. -/
def FailsClean (k : Driver) (w : World) (r : World × Handled) : Prop :=
  r.2.ret ≠ .ok → AsBefore k w r.1

theorem FailsClean.reply (k : Driver) (w : World) (ret : Ret) : FailsClean k w (reply w ret) :=
  fun _ => .refl k w

theorem Opened.failsClean {connId : U64} (h : w.Sound) {r : World × Handled}
    (hopened : Opened w connId k r) : FailsClean k.driver w r := by
  cases hopened with
  | refused ret => exact .reply _ _ _
  | failed hd hc ret =>
    intro _
    obtain ⟨next, f, -, -, rfl, hunmade⟩ := hc.error
    exact AsBefore.device (t := w.fds) (l := w.ledger) h hd hunmade
  | created hd hc =>
    split
    · intro _
      obtain ⟨t, next, l, f, -, -, -, -, heq, hunmade⟩ := hc.discard
      rw [Daemon.reply, heq]
      exact AsBefore.device h hd hunmade
    · exact fun hret => absurd rfl hret

theorem handleRequest_failsClean (h : w.Sound) (pending : List Nat) (client : Nat) (connId : U64)
    (inFd : Option Nat) {m : Message} (hm : m.request.opensBuffer = true) :
    FailsClean k.driver w (handleRequest w pending client connId inFd m k) := by
  unfold handleRequest
  cases hrequest : m.request with
  | bufferOpen dev type dir channel arg size =>
    exact (bufferOpen_opened h m dev type dir channel arg size).failsClean h
  | bufferOpenRaw dev dir channel addr size =>
    exact (bufferOpenRaw_opened h m dev dir channel addr size).failsClean h
  | _ => simp [hrequest, Request.opensBuffer] at hm

end Failed

/-! ## The property -/

/-- Who owns which memory: the stamps and the buffers agree, a failed creation changes neither and
leaves no queue pair that could be deleted, and nothing but queue pairs that the driver kept
is left of a connection that is gone once no async operation runs. -/
structure ExactOwnership (s : State) : Prop where
  stamps : ∀ d ∈ s.world.devices, ∀ conn, conn ≠ 0 → ∀ cls r i, i < subregionsPerRegion →
    (d.memoryMap cls r i = conn ↔
      ∃! b, b ∈ d.buffers ∧ b.clientId = conn ∧ b.Covers cls (subregion r i))
  failed : ∀ pending client connId inFd m k, m.request.opensBuffer = true →
    (handleRequest s.world pending client connId inFd m k).2.ret ≠ .ok →
    ∀ d' ∈ (handleRequest s.world pending client connId inFd m k).1.devices,
      ∃ d ∈ s.world.devices, d'.id = d.id ∧ d'.memoryMap = d.memoryMap ∧
        d'.buffers = d.buffers ∧ (∀ q ∈ d'.qpairs, q ∈ d.qpairs ∨ q.refused = true) ∧
        ((∀ qid, k.driver.del qid = true) → d'.qpairs = d.qpairs)
  gone : s.world.asyncInProgress = false → ∀ conn, conn ≠ 0 → (∀ c ∈ s.clients, c.connId ≠ conn) →
    ∀ d ∈ s.world.devices, (∀ b ∈ d.buffers, b.clientId ≠ conn) ∧
      (∀ cls r i, i < subregionsPerRegion → d.memoryMap cls r i ≠ conn) ∧
      ∀ q ∈ d.qpairs, q.owner = some conn → q.refused = true

/-- A driver that deletes nothing. -/
def stubbornDriver : Driver := { ({} : Answers).driver with del := fun _ => false }

end Slash.Daemon
