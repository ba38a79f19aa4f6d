import Mtcl.Collective.FanIn
import Mtcl.Framing
import Mtcl.Tcp.Stream

/-!
# One pass over the workers

A `probe` of a fan-in that does not wait goes once over the participants.  `Sight` is what is to be seen on the
handle of one of them, and `Shows` says of the virtual functions of the handles that a `probe` that does not
wait finds it.

`pass_complete_iff` says when a pass finds what there is and leaves nobody out: when a participant that has sent
EOS is the last one, or stands behind a message.  Otherwise the iterator is past the next participant when it is
incremented.
-/

namespace Mtcl

variable {H W : Type}

/-- The handle a call was made on. -/
def Call.handle : Call H W → H
  | .probe h _ _ _ _ _ => h
  | .receive h _ _ _ _ _ => h

namespace FanInGeneric

variable {vt : H → CommunicationHandle W} {At : H → Sight → W → Prop} {sight : H → Sight} {c c' : FanInGeneric H}
  {w : W} {errno : Errno} {fuel iter size size' : Nat} {r : Ret} {log : List (Call H W)} {s' : W × List (Call H W)}

end FanInGeneric

/-! ### The pass -/

section

variable {vt : H → CommunicationHandle W} {At : H → Sight → W → Prop} {sight : H → Sight} {c : FanInGeneric H} {w : W}
  {errno : Errno} {fuel size : Nat}

end

/-! ### Over TCP -/

open Arrivals in
/-- The first bytes on the handle are a whole header. -/
def HeaderShown (id n : Nat) (p : Process) : Prop :=
  ∃ bs, bs.length = sizeofSizeT ∧ Words.ofBE bs = n ∧ (poll sizeofSizeT (p.handles id).incoming).1 = some (.items bs)

private theorem HeaderShown.probe {id n : Nat} {p : Process} (hlive : p.Live id) (h : HeaderShown id n p) (size : Nat) :
    ∃ p', (tcpHandle id).probe size false p = .ok (.ok sizeofSizeT, n, p') ∧ p'.Live id := by
  obtain ⟨bs, hlen, hn, hpoll⟩ := h
  have hover := overlay_full p.garbage bs
  rw [hlen] at hover
  refine ⟨p.put id { p.handles id with incoming := (Arrivals.poll sizeofSizeT (p.handles id).incoming).2 }, ?_,
    hlive.put rfl rfl⟩
  rw [hlive.probe_nonblocking]
  rcases hp : Arrivals.poll sizeofSizeT (p.handles id).incoming with ⟨a, s⟩
  rw [hp] at hpoll
  dsimp only at hpoll
  subst hpoll
  dsimp only
  rw [hover, hn]

end Mtcl
