import Mtcl.Connect
import Mtcl.ConnTcp

/-!
# The attempts of `connectHandle`

`dialHandle_clean_iff` says when a call of `connectHandle` tries its candidates in order until one succeeds,
uses no null pointer, and leaves `protocolsMap` alone: when the protocols of the candidates are registered, up
to the first that succeeds; where the string is sent before the handle is tested, when the first one succeeds;
and when the functions of the transports return that are called.  Over TCP the last means that the addresses
have a colon: `ConnTcp::connect` throws when one has none.
-/

namespace Mtcl

/-- `ConnTcp::connect`, for the socket that the kernel yields: the address is taken apart at its colon, and without one
`substr` throws. -/
def Process.connectAddress (p : Process) (address : Bytes) (s : Option Socket) : Except Stop (Option Nat × Process) :=
  if colon ∈ address then .ok (p.connect s) else .error .outOfRange

namespace Manager

variable {H W : Type}

/-- The call has come to its end without a null pointer and with `protocolsMap` as before, and has made the
attempts `as` in order: all of them have failed and it returns nothing, or it returns the handle of the first
that has not. -/
structure Clean (as : List Attempt) (d : Dialling H W) (r : Dialled H W (Option H)) : Prop where
  noNull : r.1 ≠ .error .nullDereference
  protocolsMap : r.2.protocolsMap = d.protocolsMap
  inOrder : (r.1 = .ok none ∧ r.2.attempts = d.attempts ++ as.map fun a => (a, none)) ∨
    ∃ pre a post h, as = pre ++ a :: post ∧ r.1 = .ok (some h) ∧
      r.2.attempts = d.attempts ++ ((pre.map fun a => (a, none)) ++ [(a, some h)])

/-- The protocols are registered, up to that of the first attempt that succeeds. -/
def RegisteredUpTo (m : Manager H W) : List Attempt → W → Prop
  | [], _ => True
  | a :: as, w => m.registered a.protocol = true ∧
      ∀ w', m.connectTo a.protocol a.address w = .ok (none, w') → RegisteredUpTo m as w'

/-- The first attempt succeeds, if there is one. -/
def FirstSucceeds (m : Manager H W) (as : List Attempt) (w : W) : Prop :=
  ∀ a ∈ as.head?, ∃ h w', m.connectTo a.protocol a.address w = .ok (some h, w')

/-- The attempts return, up to the first that succeeds, and so does the `send` of the string on its handle when
a proxy is asked. -/
def TransportsReturn (m : Manager H W) (s : Bytes) : List Attempt → W → Prop
  | [], _ => True
  | a :: as, w => (∃ r, m.connectTo a.protocol a.address w = .ok r) ∧
      (∀ w', m.connectTo a.protocol a.address w = .ok (none, w') → TransportsReturn m s as w') ∧
      ∀ h w', m.connectTo a.protocol a.address w = .ok (some h, w') → (∃ q, m.Asks s q) →
        ∃ r, (m.vt h).send s w' = .ok r

/-- The addresses have a colon, up to that of the first attempt that succeeds. -/
def AddressedUpTo (m : Manager H W) : List Attempt → W → Prop
  | [], _ => True
  | a :: as, w => colon ∈ a.address ∧
      ∀ w', m.connectTo a.protocol a.address w = .ok (none, w') → AddressedUpTo m as w'

/-- All protocols are TCP, with the sockets that the kernel yields. -/
structure ConnectsTcp (m : Manager Nat Process) (sockets : Bytes → Process → Option Socket) : Prop where
  vt : m.vt = tcpHandle
  connectTo : ∀ protocol address p, m.connectTo protocol address p = p.connectAddress address (sockets address p)

section

variable {m : Manager H W} {a : Attempt} {as : List Attempt} {s : Bytes} {d : Dialling H W} {r : Dialled H W (Option H)}

private theorem Clean.nil : Clean [] d ((.ok none : Except Stop (Option H)), d) := ⟨by simp, rfl, Or.inl ⟨rfl, by simp⟩⟩

private theorem Clean.found (h : H) (w w' : W) :
    Clean (a :: as) d (.ok (some h), { tried d a (some h) w with world := w' }) :=
  ⟨by simp, rfl, Or.inr ⟨[], a, as, h, rfl, rfl, rfl⟩⟩

private theorem Clean.cons {w : W} (hc : Clean as (tried d a none w) r) : Clean (a :: as) d r := by
  obtain ⟨hnull, hmap, horder⟩ := hc
  refine ⟨hnull, hmap, ?_⟩
  rcases horder with ⟨hr, hall⟩ | ⟨pre, b, post, h, has, hr, hall⟩
  · refine Or.inl ⟨hr, ?_⟩
    rw [hall]
    simp [tried]
  · refine Or.inr ⟨a :: pre, b, post, h, by rw [has]; rfl, hr, ?_⟩
    rw [hall]
    simp [tried]

private theorem Clean.returns (hc : Clean as d r) (e : Stop) : r.1 ≠ .error e := by
  intro he
  rcases hc.inOrder with ⟨hr, -⟩ | ⟨pre, b, post, h, -, hr, -⟩
  · cases he.symm.trans hr
  · cases he.symm.trans hr

/-- The loop is clean, or it ends where it must not. -/
private theorem dialAll_outcome (untested : Bool) {ask : Option Bytes} (as : List Attempt)
    (hask : ask = some s ∧ (∃ q, m.Asks s q) ∨ ask = none ∧ ∀ q, ¬ m.Asks s q) (hmap : d.protocolsMap = m.registered) :
    (Clean as d (m.dialAll untested ask as d) ∧ m.RegisteredUpTo as d.world ∧
        (untested = true → m.FirstSucceeds as d.world) ∧ m.TransportsReturn s as d.world) ∨
      (∃ e, (m.dialAll untested ask as d).1 = .error e) ∧ ¬ (m.RegisteredUpTo as d.world ∧
        (untested = true → m.FirstSucceeds as d.world) ∧ m.TransportsReturn s as d.world) := by
  induction as generalizing d with
  | nil =>
    refine Or.inl ⟨Clean.nil, trivial, fun _ a ha => ?_, trivial⟩
    cases ha
  | cons a as ih =>
    unfold dialAll
    rcases dial_cases hmap a with ⟨e, d', hvia, hd, -⟩ | ⟨h, w, hr, hto, hd⟩
    · rw [hd]
      refine Or.inr ⟨⟨e, rfl⟩, fun hcond => ?_⟩
      obtain ⟨⟨r, hto⟩, -⟩ := hcond.2.2
      unfold connectVia at hvia
      rw [if_pos hcond.1.1, hto] at hvia
      cases hvia
    · rw [hd]
      cases h with
      | none =>
        dsimp only
        by_cases hu : untested = true
        · -- the string is sent over a null handle
          rw [if_pos hu]
          refine Or.inr ⟨⟨_, rfl⟩, fun hcond => ?_⟩
          obtain ⟨h, w', hto'⟩ := hcond.2.1 hu a rfl
          cases hto.symm.trans hto'
        · rw [if_neg hu]
          have hreg : m.RegisteredUpTo (a :: as) d.world ↔ m.RegisteredUpTo as w := by
            refine ⟨fun h => h.2 w hto, fun h => ⟨hr, fun w' hto' => ?_⟩⟩
            cases hto.symm.trans hto'
            exact h
          have hret : m.TransportsReturn s (a :: as) d.world ↔ m.TransportsReturn s as w := by
            refine ⟨fun h => h.2.1 w hto, fun h => ⟨⟨_, hto⟩, fun w' hto' => ?_, fun k w' hto' => ?_⟩⟩
            · cases hto.symm.trans hto'
              exact h
            · cases hto.symm.trans hto'
          rw [hreg, hret]
          rcases ih (d := tried d a none w) hmap with ⟨hc, h1, -, h3⟩ | ⟨he, hno⟩
          · exact Or.inl ⟨hc.cons, h1, fun h => absurd h hu, h3⟩
          · exact Or.inr ⟨he, fun hcond => hno ⟨hcond.1, fun h => absurd h hu, hcond.2.2⟩⟩
      | some h =>
        have hreg : m.RegisteredUpTo (a :: as) d.world := by
          refine ⟨hr, fun w' hto' => ?_⟩
          cases hto.symm.trans hto'
        have hfirst : m.FirstSucceeds (a :: as) d.world := by
          intro b hb
          cases hb
          exact ⟨h, w, hto⟩
        have hret : m.TransportsReturn s (a :: as) d.world ↔ ((∃ q, m.Asks s q) → ∃ r, (m.vt h).send s w = .ok r) := by
          refine ⟨fun hret => hret.2.2 h w hto, fun hsend => ⟨⟨_, hto⟩, fun w' hto' => ?_, fun k w' hto' => ?_⟩⟩
          · cases hto.symm.trans hto'
          · cases hto.symm.trans hto'
            exact hsend
        rw [hret]
        rcases hask with ⟨rfl, ha⟩ | ⟨rfl, hn⟩
        · dsimp only
          rcases request_cases m s h (tried d a (some h) w) with ⟨r, w', hsend, hreq⟩ | ⟨e, hsend, hreq⟩
          · rw [hreq]
            exact Or.inl ⟨Clean.found h w w', hreg, fun _ => hfirst, fun _ => ⟨_, hsend⟩⟩
          · rw [hreq]
            refine Or.inr ⟨⟨e, rfl⟩, fun hcond => ?_⟩
            obtain ⟨r, hok⟩ := hcond.2.2 ha
            cases hok.symm.trans hsend
        · refine Or.inl ⟨Clean.found h w w, hreg, fun _ => hfirst, fun hasks => ?_⟩
          obtain ⟨q, ha⟩ := hasks
          exact absurd ha (hn q)

private theorem clean_iff (hmap : d.protocolsMap = m.registered) (s : Bytes) :
    Clean (m.candidates s) d (m.dialHandle s d) ↔ m.RegisteredUpTo (m.candidates s) d.world ∧
      (m.SendsUntested s → m.FirstSucceeds (m.candidates s) d.world) ∧
      m.TransportsReturn s (m.candidates s) d.world := by
  have hloop : ∀ (untested : Bool) (ask : Option Bytes),
      (ask = some s ∧ (∃ q, m.Asks s q) ∨ ask = none ∧ ∀ q, ¬ m.Asks s q) →
      (untested = true ↔ m.SendsUntested s) → m.dialHandle s d = m.dialAll untested ask (m.candidates s) d →
      (Clean (m.candidates s) d (m.dialHandle s d) ↔ m.RegisteredUpTo (m.candidates s) d.world ∧
        (m.SendsUntested s → m.FirstSucceeds (m.candidates s) d.world) ∧
        m.TransportsReturn s (m.candidates s) d.world) := by
    intro untested ask hask hsends hd
    rw [hd, ← hsends]
    rcases dialAll_outcome untested (m.candidates s) hask hmap with ⟨hc, hcond⟩ | ⟨⟨e, he⟩, hno⟩
    · exact ⟨fun _ => hcond, fun _ => hc⟩
    · exact ⟨fun hc => absurd he (hc.returns e), fun hcond => absurd hcond hno⟩
  rcases dialHandle_cases hmap s with ⟨hs, hd⟩ | ⟨ha, hs, hd⟩ | ⟨hn, hd⟩
  · obtain ⟨q, ha, -⟩ := id hs
    exact hloop true (some s) (Or.inl ⟨rfl, q, ha⟩) ⟨fun _ => hs, fun _ => rfl⟩ hd
  · exact hloop false (some s) (Or.inl ⟨rfl, ha⟩) ⟨nofun, fun h => absurd h hs⟩ hd
  · exact hloop false none (Or.inr ⟨rfl, hn⟩) ⟨nofun, fun ⟨q, ha, _⟩ => absurd ha (hn q)⟩ hd

end

/-! ### Over TCP -/

section

variable {m : Manager Nat Process} {sockets : Bytes → Process → Option Socket}

private theorem send_connected {p p' : Process} {k : Option Socket} {id : Nat}
    (he : p.connect k = (some id, p')) (bs : Bytes) : ∃ r, (tcpHandle id).send bs p' = .ok r := by
  unfold Process.connect at he
  split at he
  · cases he
  · rename_i k' hk
    cases he
    have hlive : (p.newHandle k').Live p.allocated := by
      refine ⟨Nat.lt_succ_self _, ?_, ?_⟩
      · rw [Process.newHandle, Process.put_handles_self]
      · rw [Process.newHandle, Process.put_handles_self]
        exact Option.some_ne_none _
    have hsend : (tcpHandle p.allocated).send bs (p.newHandle k') =
        (p.newHandle k').deref p.allocated >>= fun h =>
          .ok ((h.send bs).1, (p.newHandle k').put p.allocated (h.send bs).2) := rfl
    rw [hsend, hlive.deref]
    exact ⟨_, rfl⟩

/-- What returns are the connections to addresses with a colon. -/
private theorem tcp_return_iff (hm : m.ConnectsTcp sockets) (s : Bytes) (as : List Attempt) (p : Process) :
    m.TransportsReturn s as p ↔ m.AddressedUpTo as p := by
  induction as generalizing p with
  | nil => exact Iff.rfl
  | cons a as ih =>
    have hcolon : (∃ r, m.connectTo a.protocol a.address p = .ok r) ↔ colon ∈ a.address := by
      rw [hm.connectTo, Process.connectAddress]
      by_cases hc : colon ∈ a.address
      · rw [if_pos hc]
        exact ⟨fun _ => hc, fun _ => ⟨_, rfl⟩⟩
      · rw [if_neg hc]
        exact ⟨nofun, fun h => absurd h hc⟩
    have hsend : ∀ h p', m.connectTo a.protocol a.address p = .ok (some h, p') → (∃ q, m.Asks s q) →
        ∃ r, (m.vt h).send s p' = .ok r := by
      intro h p' he _
      rw [hm.connectTo, Process.connectAddress] at he
      split at he
      · rw [hm.vt]
        exact send_connected (Except.ok.inj he) s
      · cases he
    constructor
    · intro h
      exact ⟨hcolon.1 h.1, fun p' he => (ih p').1 (h.2.1 p' he)⟩
    · intro h
      exact ⟨hcolon.2 h.1, fun p' he => (ih p').2 (h.2 p' he), hsend⟩

end

/-- A call tries its candidates in order until one succeeds, uses no null pointer and leaves `protocolsMap`
alone, exactly when the protocols of the candidates are registered, up to the first that succeeds; the first one
succeeds, where the string is sent before the handle is tested; and the functions of the transports that are
called return.  Over TCP these return exactly when the addresses have a colon, up to the first that succeeds. -/
theorem dialHandle_clean_iff {H W : Type} {m : Manager H W} {d : Dialling H W} (hmap : d.protocolsMap = m.registered)
    (s : Bytes) :
    (Clean (m.candidates s) d (m.dialHandle s d) ↔ m.RegisteredUpTo (m.candidates s) d.world ∧
      (m.SendsUntested s → m.FirstSucceeds (m.candidates s) d.world) ∧
      m.TransportsReturn s (m.candidates s) d.world) ∧
    ∀ {m : Manager Nat Process} {sockets : Bytes → Process → Option Socket}, m.ConnectsTcp sockets →
      ∀ (s : Bytes) (p : Process),
      (Clean (m.candidates s) (m.before p) (m.dialHandle s (m.before p)) ↔ m.RegisteredUpTo (m.candidates s) p ∧
        (m.SendsUntested s → m.FirstSucceeds (m.candidates s) p) ∧ m.AddressedUpTo (m.candidates s) p) := by
  refine ⟨clean_iff hmap s, fun hm s p => ?_⟩
  rw [← tcp_return_iff hm s]
  exact clean_iff (d := Manager.before _ p) rfl s

/-- A process of the pool `own` over TCP.  The component `B` is in the pool `Q`, each pool has the proxies `d`
and `u`, and there is no connection to `d`. -/
private def calling (own : Bytes) : Manager Nat Process where
  poolName := own
  components := fun name =>
    if name = literal ['B'] then some ⟨literal ['Q', ':', 'h'], [],
      [literal ['T', 'C', 'P', ':', 'b', ':', '1']]⟩ else none
  pools := fun _ => [literal ['d'], literal ['u']]
  registered := fun protocol => protocol == literal ['T', 'C', 'P']
  connectTo := fun _ address p =>
    p.connectAddress address (if UInt8.ofNat 'd'.toNat ∈ address then none else some ⟨p.allocated + 3, [], []⟩)
  vt := tcpHandle

/-- Outside of the pools, the second proxy of `Q` is tried after the first. -/
theorem dialHandle_clean_run :
    Clean ((calling []).candidates (literal ['T', 'C', 'P', ':', 'B'])) ((calling []).before {})
        ((calling []).dialHandle (literal ['T', 'C', 'P', ':', 'B']) ((calling []).before {})) ∧
      ((calling []).dialHandle (literal ['T', 'C', 'P', ':', 'B']) ((calling []).before {})).2.attempts =
        [(toDestination (literal ['T', 'C', 'P']) (literal ['d']), none),
          (toDestination (literal ['T', 'C', 'P']) (literal ['u']), some 0)] := by
  have htcp : (calling []).ConnectsTcp fun address p =>
      if UInt8.ofNat 'd'.toNat ∈ address then none else some ⟨p.allocated + 3, [], []⟩ := ⟨rfl, fun _ _ _ => rfl⟩
  have hclean := (dialHandle_clean_iff (m := calling []) (d := (calling []).before {}) rfl []).2 htcp
    (literal ['T', 'C', 'P', ':', 'B']) {}
  refine ⟨hclean.2 ⟨?_, ?_, ?_⟩, rfl⟩
  · refine ⟨rfl, fun p hd => ?_⟩
    cases hd
    refine ⟨rfl, fun p hu => ?_⟩
    cases hu
  · rintro ⟨_, _, hsends⟩
    exact absurd hsends (by decide)
  · refine ⟨by decide, fun p hd => ?_⟩
    cases hd
    refine ⟨by decide, fun p hu => ?_⟩
    cases hu

/-- In the pool `P`, the string is sent over the null handle of the first proxy.  The protocol `X` is not
registered: there is a name for it in `protocolsMap` afterwards, and its null pointer is used.  There is no
component `n`, and `ConnTcp::connect` throws for its name. -/
theorem dialHandle_null :
    ((calling (literal ['P'])).dialHandle (literal ['T', 'C', 'P', ':', 'B']) ((calling (literal ['P'])).before {})).1 =
        .error .nullDereference ∧
      ((calling []).dialHandle (literal ['X', ':', 'B']) ((calling []).before {})).1 = .error .nullDereference ∧
      ((calling []).dialHandle (literal ['X', ':', 'B']) ((calling []).before {})).2.protocolsMap
        (literal ['X']) = true ∧
      ((calling []).before {}).protocolsMap (literal ['X']) = false ∧
      ((calling []).dialHandle (literal ['T', 'C', 'P', ':', 'n']) ((calling []).before {})).1 =
        .error .outOfRange := by
  refine ⟨rfl, rfl, by decide, by decide, rfl⟩

end Manager

end Mtcl
