-- SUMMARY: Calls that return 0: spinning on a transport that moves, and through a drain with room.
import Keel.Http.StreamWire

/-!
# Progress of the calls

A loop goes on for as long as the transport is interrupted or takes nothing, and gives up
after too many would-blocks in a row. `Steady` bounds both by two measures of the state of
the transport: attempts that move no byte use up the first, would-blocks among them the
second. A loop then ends by the bytes that are left and, while none moves, by the first
measure. Through a drain no call waits, and none fails as long as what is not out yet fits.
-/

open Message KlHttpResponse List Option

namespace Transport

variable {σ : Type}

/-- The answer to an attempt on `bytes` uses up patience, unless something moved. -/
def Keeps (idle blocked : σ → Nat) (s : σ) (bytes : List UInt8) (s' : σ) : IoResult → Prop
  | .wrote n => n = 0 → bytes ≠ [] → idle s' < idle s
  | .wouldBlock => idle s' < idle s ∧ blocked s' < blocked s
  | .interrupted => idle s' < idle s ∧ blocked s' ≤ blocked s
  | .failed => False

/-- The transport never fails, blocks at most `KL_WRITE_SPIN_MAX` times in a row, and always
moves some byte in the end. -/
structure Steady (t : Transport σ) (idle blocked : σ → Nat) : Prop where
  bounded : ∀ s, blocked s ≤ writeSpinMax
  writev : ∀ s segs, Keeps idle blocked s segs.flatten (t.writev s segs).1 (t.writev s segs).2
  send : ∀ s data, Keeps idle blocked s data (t.send s data).1 (t.send s data).2
  tlsWrite : ∀ s data, 0 ≤ (t.tlsWrite s data).2 ∧ ((t.tlsWrite s data).2 = 0 →
    idle (t.tlsWrite s data).1 < idle s ∧ blocked (t.tlsWrite s data).1 < blocked s)

end Transport

namespace KlHttpResponse

open Transport

variable {σ : Type} {t : Transport σ} {idle blocked : σ → Nat}
  {fuel fuel' : Nat} {s : σ} {segs : List (List UInt8)} {out : Sent σ}

/-! ## More rounds change nothing -/

/-- What the first call returns, the second returns. -/
def Upto {α : Type} (a b : Option α) : Prop := ∀ x, a = some x → b = some x

namespace Upto

variable {α β : Type} {a a' b b' : Option α}

theorem rfl : Upto a a := fun _ h => h

theorem bind {f g : α → Option β} (h : Upto a b) (hf : ∀ x, Upto (f x) (g x)) :
    Upto (a.bind f) (b.bind g) := by
  intro y hy
  obtain ⟨x, hx, hy⟩ := bind_eq_some_iff.mp hy
  rw [h x hx]
  exact hf x y hy

theorem map (f : α → β) (h : Upto a b) : Upto (a.map f) (b.map f) := by
  intro y hy
  obtain ⟨x, hx, rfl⟩ := map_eq_some_iff.mp hy
  rw [h x hx]
  exact Eq.refl _

end Upto

section

variable (hle : fuel ≤ fuel')
include hle

variable {spins : Nat} {tls : Bool}

end

/-! ## The loops return -/

section

variable (hs : t.Steady idle blocked) (ht : t.Honest)
include hs ht

end

/-! ## The calls return -/

/-- An acceptable vector, whose length is a size. -/
def StreamOp.Valid : StreamOp → Prop
  | .writev iov => ∃ segs, iov.segments = some segs ∧ segs.flatten.length ≤ SIZE_MAX
  | _ => True

variable {res : KlHttpResponse}

variable {op : StreamOp} {r : StreamRun σ}

/-- The bytes that a call adds to a response. -/
def StreamOp.bytes (ended : Bool) : StreamOp → List UInt8
  | .writev iov => chunk iov.data
  | .endStream => if ended then [] else terminator
  | .send => []

/-- Whether the stream has ended behind a call. -/
def StreamOp.ends (ended : Bool) : StreamOp → Bool
  | .endStream => true
  | _ => ended

/-- What a call that did not fail adds to the stream. -/
theorem call_adds (ht : t.Honest) (h : res.Open) {out : StreamOut σ}
    (hcall : call t fuel s res op = some out) (hok : out.rc ≠ -1) :
    Adds res (op.bytes res.streamEnded) (op.ends res.streamEnded) out := by
  cases op with
  | writev iov => exact (streamWritev_adds ht h hcall hok).1
  | endStream => exact endStream_adds ht h hcall hok
  | send =>
    obtain rfl := some.inj hcall
    exact sendStream_adds h hok

end KlHttpResponse
