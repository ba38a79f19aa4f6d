import Mathlib.Data.List.TakeWhile
import Mtcl.HandleTCP

/-!
# The handshake of a new connection

`connectionHandshake` reads from a fresh connection what its peer announces: an `int` that says whether the connection
belongs to a collective, and then the name of the team.  It is written over the virtual functions of a handle, as every
transport runs it.
-/

namespace Mtcl

/-- What `Manager::connectionHandshake` finds: `-1`, a point-to-point connection (`teamID` stays null), or a member of a
team. -/
inductive Handshake
  | failed
  | p2p
  | team (teamID : Bytes)
  deriving DecidableEq, Repr

/-- The longest team name that is accepted. -/
abbrev maxTeamID : Nat := 1048576

/-- The bytes of a C string, up to the first NUL. -/
def cstr (bs : Bytes) : Bytes := bs.takeWhile fun b => b != 0

theorem cstr_eq {bs : Bytes} (h : 0 ∉ bs) : cstr bs = bs := by
  unfold cstr
  rw [List.takeWhile_eq_self_iff]
  intro b hb
  have hne : b ≠ 0 := fun e => h (e ▸ hb)
  simpa using hne

/-- An `int` that was zero, after the first bytes of a message have been stored in it. -/
def intOf (bs : Bytes) : Nat := Words.ofLE (overlay (fun _ => 0) sizeofInt (bs.take sizeofInt))

/-- The second half of `connectionHandshake`, for a connection of a collective; what a short read leaves of the
new buffer keeps what the memory held. -/
def readTeamID {W : Type} (garbage : Nat → UInt8) (h : CommunicationHandle W) (w : W) :
    Except Stop (Handshake × W) := do
  let (r, size, w) ← h.probe 0 true w
  match r with
  | .ok (_ + 1) =>
    if maxTeamID < size then return (.failed, w)
    else
      let (r, bs, w) ← h.receive size w
      match r with
      | .ok (_ + 1) => return (.team (cstr (overlay garbage size bs)), w)
      | _ => return (.failed, w)
  | _ => return (.failed, w)

/-- `Manager::connectionHandshake`. -/
def connectionHandshake {W : Type} (garbage : Nat → UInt8) (h : CommunicationHandle W) (w : W) :
    Except Stop (Handshake × W) := do
  let (r, _, w) ← h.probe 0 true w
  match r with
  | .ok (_ + 1) =>
    let (r, bs, w) ← h.receive sizeofInt w
    match r with
    | .ok (_ + 1) => if intOf bs = 0 then return (.p2p, w) else readTeamID garbage h w
    | _ => return (.failed, w)
  | _ => return (.failed, w)

section

variable {W : Type} {garbage : Nat → UInt8} {h : CommunicationHandle W} {I : W → Prop}
  (hprobe : ∀ {size blocking w r size' w'}, I w → h.probe size blocking w = .ok (r, size', w') → I w')
  (hreceive : ∀ {n w r bs w'}, I w → h.receive n w = .ok (r, bs, w') → I w')

include hprobe hreceive

private theorem readTeamID_keeps {w w' : W} {r : Handshake} (hw : I w) (he : readTeamID garbage h w = .ok (r, w')) :
    I w' := by
  unfold readTeamID at he
  obtain ⟨⟨r1, size, w1⟩, h1, he⟩ := bind_eq_ok.1 he
  have hw1 : I w1 := hprobe hw h1
  dsimp only at he
  split at he
  · split at he
    · cases he
      exact hw1
    · obtain ⟨⟨r2, bs, w2⟩, h2, he⟩ := bind_eq_ok.1 he
      have hw2 : I w2 := hreceive hw1 h2
      dsimp only at he
      split at he
      · cases he
        exact hw2
      · cases he
        exact hw2
  · cases he
    exact hw1

/-- The handshake keeps what `probe` and `receive` of the handle keep. -/
theorem connectionHandshake_keeps {w w' : W} {r : Handshake} (hw : I w)
    (he : connectionHandshake garbage h w = .ok (r, w')) : I w' := by
  unfold connectionHandshake at he
  obtain ⟨⟨r1, size, w1⟩, h1, he⟩ := bind_eq_ok.1 he
  have hw1 : I w1 := hprobe hw h1
  dsimp only at he
  split at he
  · obtain ⟨⟨r2, bs, w2⟩, h2, he⟩ := bind_eq_ok.1 he
    have hw2 : I w2 := hreceive hw1 h2
    dsimp only at he
    split at he
    · split at he
      · cases he
        exact hw2
      · exact readTeamID_keeps hprobe hreceive hw2 he
    · cases he
      exact hw2
  · cases he
    exact hw1

end

end Mtcl
