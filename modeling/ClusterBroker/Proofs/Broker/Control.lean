import ClusterBroker.Proofs.Broker.Run

/-!
# What the controller keeps

Whatever happens to a broker, its controller moves in a few ways only. A property of the controller
that each of its moves keeps is `Stable`, and holds after every run, on whatever terms the run went
on; nothing is assumed about the ids asked for, the connector, or whether the registry was stopped.
While reservations are placed there are fewer moves, and a property that these keep `Settles`.

The books change in fewer ways still: a reservation is written into them as one that waits, is
submitted, leaves the submitted ones or is struck out. A property of the books that each of these
keeps is stable.
-/
namespace ClusterBroker

namespace GangControl

/-- A property that is kept while reservations are placed at one reading of the clock: the wait for
an allocation starts over, reservations are struck out, and what became of one is counted. -/
structure Settles (clock : Time) (I : GangControl → Prop) : Prop where
  restart : ∀ {c}, I c → I { c with lastAllocation := clock }
  forget : ∀ {c} id, I c → I (c.forget id).2
  note : ∀ {c} ok, I c → I (c.noteResubmission ok)

/-- A property that every move of the controller keeps, as long as what is written into its books is
`ok`. -/
structure Stable (ok : Reservation → Prop) (clock : Time) (I : GangControl → Prop) : Prop
    extends Settles clock I where
  submit : ∀ {c r}, I c → ok r → I (c.submit r)
  wait : ∀ {c r} now, I c → ok r → I (c.wait now r)
  stepBack : ∀ {c} now id, I c → I (c.stepBack now id)
  beginRound : ∀ {c}, I c → I (c.pickVictims.2.noteRound c.pickVictims.1)
  wake : ∀ {c} now, I c → I (c.wake now).2
  roll : ∀ {c} dice, I c → I { c with dice := dice }

/-- A property that every change of the books keeps, as long as what is written there is `ok`. -/
structure Keeping (ok : Reservation → Prop) (I : GangControl → Prop) : Prop where
  known : ∀ {c id r}, I c → c.known.get? id = some r → ok r
  reset : ∀ {r}, ok r → ok r.reset
  same : ∀ {c c' : GangControl}, I c → c'.known = c.known → c'.submitted = c.submitted → I c'
  write : ∀ {c c' : GangControl} {id r}, I c → ok r →
    c'.known = c.known.insert id { r with status := .backedOff } →
    c'.submitted = c.submitted → I c'
  submit : ∀ {c r}, I c → ok r → I (c.submit r)
  leave : ∀ {c c' : GangControl} {id}, I c → c'.known = c.known →
    c'.submitted = c.submitted.remove id → I c'
  strike : ∀ {c c' : GangControl} {id}, I c → c'.known = c.known.erase id →
    c'.submitted = c.submitted.remove id → I c'

variable {ok : Reservation → Prop} {I : GangControl → Prop} {c : GangControl}

theorem Settles.forgetAll {clock : Time} (hI : Settles clock I) (h : I c)
    (ids : List ReservationId) : I (GangControl.forgetAll ids c).2 := by
  induction ids generalizing c with
  | nil => exact h
  | cons id ids ih => exact ih (hI.forget id h)

theorem Settles.learn {clock : Time} (hI : Settles clock I) (h : I c) (e : Event) :
    I (c.learn clock e) := by
  unfold GangControl.learn
  dsimp only
  split
  · exact hI.forgetAll (hI.restart h) _
  · exact hI.forgetAll h _

/-! ### Properties of the books -/

theorem Keeping.forget (hI : Keeping ok I) (h : I c) (id : ReservationId) : I (c.forget id).2 := by
  unfold GangControl.forget
  dsimp only
  split
  next => exact hI.leave h rfl rfl
  next =>
    split
    · exact hI.strike h rfl rfl
    · exact hI.strike h rfl rfl

theorem Keeping.wait (hI : Keeping ok I) (h : I c) (now : Time) {r : Reservation} (hr : ok r) :
    I (c.wait now r) := by
  obtain ⟨hknown, hsub, -⟩ := wait_books now r c
  exact hI.write h hr hknown hsub

theorem Keeping.stepBack (hI : Keeping ok I) (h : I c) (now : Time) (id : ReservationId) :
    I (c.stepBack now id) := by
  unfold GangControl.stepBack
  split
  next =>
    obtain ⟨d, hd⟩ := drawDelay_eq c
    rw [hd]
    exact hI.same h rfl rfl
  next r hr => exact hI.wait h now (hI.reset (hI.known h hr))

theorem Keeping.pick (hI : Keeping ok I) (h : I c) (wanted n : Nat) : I (c.pick wanted n).2 := by
  induction n generalizing wanted c with
  | zero => exact h
  | succ n ih =>
    unfold GangControl.pick
    dsimp only
    split
    next => exact h
    next =>
      split
      next => exact h
      next id _ =>
        have hleft : I { c with
            dice := (c.dice.draw c.submitted.size).2
            submitted := c.submitted.remove id } := hI.leave h rfl rfl
        split
        next => exact ih hleft _
        next r hr =>
          refine ih ?_ _
          exact hI.write hleft (hI.known h hr) rfl rfl

/-- What wakes up was known, and is as it was when first placed. -/
theorem Keeping.wake (hI : Keeping ok I) (h : I c) (now : Time) :
    (∀ r ∈ (c.wake now).1, ∃ s, ok s ∧ r = s.reset) ∧ I (c.wake now).2 := by
  have hgo : ∀ (ids : List ReservationId) {c : GangControl}, I c →
      (∀ r ∈ (wake.go ids c).1, ∃ s, ok s ∧ r = s.reset) ∧ I (wake.go ids c).2 := by
    intro ids
    induction ids with
    | nil => exact fun h => ⟨List.forall_mem_nil _, h⟩
    | cons id ids ih =>
      intro c h
      unfold wake.go
      dsimp only
      split
      next => exact ih h
      next r hr =>
        have hok := hI.known h hr
        obtain ⟨hmem, hrest⟩ := ih (hI.submit h (hI.reset hok))
        refine ⟨fun s hs => ?_, hrest⟩
        rcases List.mem_cons.1 hs with rfl | hs
        · exact ⟨r, hok, rfl⟩
        · exact hmem s hs
  exact hgo _ (hI.same h rfl rfl)

theorem Keeping.stable (hI : Keeping ok I) (clock : Time) : Stable ok clock I where
  restart h := hI.same h rfl rfl
  forget id h := hI.forget h id
  note _ h := hI.same h rfl rfl
  submit h hr := hI.submit h hr
  wait now h hr := hI.wait h now hr
  stepBack now id h := hI.stepBack h now id
  beginRound {c} h := by
    obtain ⟨hknown, hsub, -⟩ := noteRound_books c
    exact hI.same (hI.pick h c.target c.submitted.size) hknown hsub
  wake now h := (hI.wake h now).2
  roll _ h := hI.same h rfl rfl

end GangControl

namespace Broker

open GangControl (Settles Stable)

variable {σ : Type} (C : Connector σ) (clock now : Time) {b : Broker σ}
  {ok : Reservation → Prop} {I : GangControl → Prop}

/-- The controller, if there is one, satisfies `I`. -/
def Controls (I : GangControl → Prop) (b : Broker σ) : Prop := ∀ c, b.control? = some c → I c

theorem Controls.of_control (h : b.Controls I) {b' : Broker σ} (he : b'.control? = b.control?) :
    b'.Controls I := by
  unfold Controls
  rw [he]
  exact h

theorem Controls.with_desk (h : b.Controls I) (d : Desk σ) :
    ({ b with desk := d } : Broker σ).Controls I := h.of_control rfl

theorem Controls.modifyControl {f : GangControl → GangControl}
    (hf : ∀ c, b.control? = some c → I (f c)) : (b.modifyControl f).Controls I := by
  intro c hc
  unfold control? Broker.modifyControl at hc
  rw [Option.map_map] at hc
  obtain ⟨s, hs, rfl⟩ := Option.map_eq_some_iff.1 hc
  exact hf s.control (by rw [control?, hs]; rfl)

theorem forward_unseen (e : Event) (b : Broker σ) :
    (b.forward e).desk = b.desk ∧ (b.forward e).control? = b.control? := by
  unfold forward
  cases hs : b.supervisor with
  | none => exact ⟨rfl, rfl⟩
  | some s =>
    dsimp only
    rw [foldl_tell]
    refine ⟨rfl, ?_⟩
    unfold control?
    rw [hs]
    rfl

theorem Controls.answerCall (hI : Settles clock I) (h : b.Controls I)
    (c : Listeners.Call Subscriber) : (b.answerCall clock c).Controls I := by
  unfold Broker.answerCall
  split
  next => exact h.of_control rfl
  next =>
    have hl : (b.modifyControl (GangControl.learn clock c.event)).Controls I :=
      .modifyControl fun k hk => hI.learn (h k hk) c.event
    exact hl.of_control (forward_unseen _ _).2

theorem Controls.follow (hI : Settles clock I) (h : b.Controls I) (sent : List (Dispatch σ))
    (d : Desk σ) : (b.follow clock sent d).Controls I := by
  have hcalls : ∀ (cs : List (Listeners.Call Subscriber)) {b : Broker σ}, b.Controls I →
      (cs.foldl (Broker.answerCall clock) b).Controls I := by
    intro cs
    induction cs with
    | nil => exact fun h => h
    | cons c cs ih => exact fun h => ih (h.answerCall clock hI c)
  have hsent : ∀ {b : Broker σ}, b.Controls I → (sent.foldl (hear clock) b).Controls I := by
    induction sent with
    | nil => exact fun h => h
    | cons x sent ih => exact fun h => ih (hcalls _ (h.of_control rfl))
  exact (hsent h).with_desk d

theorem Controls.place (hI : Settles clock I) (h : b.Controls I) (r : Reservation) :
    (b.place C clock r).2.Controls I := h.follow clock hI _ _

theorem Controls.stepBacks (hI : Stable ok clock I) (h : b.Controls I)
    (vs : List (ReservationId × HandleId)) :
    (vs.foldl (Broker.stepBack C clock now) b).Controls I := by
  induction vs generalizing b with
  | nil => exact h
  | cons v vs ih =>
    refine ih (.modifyControl fun c hc => ?_)
    exact hI.stepBack now v.1 (h.with_desk _ c hc)

theorem Controls.backOffRound (hI : Stable ok clock I) {c : GangControl} (hc : I c) :
    (b.backOffRound C clock now c).Controls I := by
  have hround := hI.beginRound hc
  unfold Broker.backOffRound
  generalize c.pickVictims = v at hround ⊢
  have hsteps : (v.1.foldl (Broker.stepBack C clock now)
      (b.modifyControl fun _ => v.2.noteRound v.1)).Controls I :=
    Controls.stepBacks C clock now hI (.modifyControl fun _ _ => hround) v.1
  exact .modifyControl fun k hk => hI.restart (hsteps k hk)

theorem Controls.avoidDeadlock (hI : Stable ok clock I) (h : b.Controls I) :
    (b.avoidDeadlock C clock now).2.Controls I := by
  unfold Broker.avoidDeadlock
  cases hc : b.control? with
  | none => exact h
  | some c =>
    dsimp only
    split
    next => exact h
    next => exact .backOffRound C clock now hI (h c hc)

theorem Controls.placeAgain (hI : Settles clock I) (h : b.Controls I) (r : Reservation) :
    (b.placeAgain C clock r).Controls I := by
  have hp := h.place C clock hI r
  unfold Broker.placeAgain
  dsimp only
  split
  next => exact .modifyControl fun c hc => hI.note true (hp c hc)
  next =>
    refine Controls.of_control (.modifyControl fun c hc => ?_) (forward_unseen _ _).2
    exact hI.forget r.id (hI.note false (hp c hc))

theorem Controls.placeAgains (hI : Settles clock I) (h : b.Controls I) (rs : List Reservation) :
    (rs.foldl (Broker.placeAgain C clock) b).Controls I := by
  induction rs generalizing b with
  | nil => exact h
  | cons r rs ih => exact ih (h.placeAgain C clock hI r)

theorem Controls.retry (hI : Stable ok clock I) (h : b.Controls I) :
    (b.retry C clock now).2.Controls I := by
  unfold Broker.retry
  split
  next => exact h
  next c hc =>
    exact Controls.placeAgains C clock hI.toSettles
      (.modifyControl fun _ _ => hI.wake now (h c hc)) _

theorem Controls.reserve (hI : Stable ok clock I) (h : b.Controls I) (id : ReservationId)
    {q : Request}
    (hq : q.gang = true → q.fault? = none → ok (Reservation.ofRequest id q clock)) :
    (b.reserve C clock id q).2.Controls I := by
  have hdirect : (b.reserveDirectly C clock id q).2.Controls I := h.follow clock hI.toSettles _ _
  unfold Broker.reserve
  split
  next c hc =>
    split
    next hg =>
      unfold reserveGang
      cases hf : q.fault? with
      | some f => exact h
      | none =>
        dsimp only
        split
        next => exact h
        next =>
          split
          next =>
            have hp : ((b.modifyControl (GangControl.submit (.ofRequest id q clock))).place C clock
                (.ofRequest id q clock)).2.Controls I :=
              Controls.place C clock hI.toSettles
                (.modifyControl fun c hc => hI.submit (h c hc) (hq hg hf)) _
            unfold submitGang
            dsimp only
            split
            next => exact hp
            next => exact .modifyControl fun c hc => hI.forget _ (hp c hc)
          next => exact .modifyControl fun c hc => hI.wait clock (h c hc) (hq hg hf)
    next => exact hdirect
  next => exact hdirect

theorem control?_of_supervisor {s : Supervisor} (hs : b.supervisor = some s) :
    b.control? = some s.control := by
  unfold control?
  rw [hs]
  rfl

theorem Controls.forgetWhere (hI : Stable ok clock I) (h : b.Controls I) (q : Reservation → Bool) :
    (b.forgetWhere q).2.Controls I := by
  unfold Broker.forgetWhere
  cases hs : b.supervisor with
  | none => exact h
  | some s =>
    intro c hc
    rw [← Option.some.inj hc]
    exact hI.forgetAll (h _ (control?_of_supervisor hs)) _

theorem Controls.forgetOf (hI : Stable ok clock I) (h : b.Controls I) (hd : HandleId)
    (id : ReservationId) : (b.forgetOf hd id).2.Controls I := by
  unfold Broker.forgetOf
  cases hs : b.supervisor with
  | none => exact h
  | some s =>
    dsimp only
    split
    next =>
      intro c hc
      rw [← Option.some.inj hc]
      exact hI.forget id (h _ (control?_of_supervisor hs))
    next => exact h

theorem addClient_control? (x : Client) (b : Broker σ) :
    (b.addClient x).2.control? = b.control? := by
  unfold addClient control?
  cases b.supervisor <;> rfl

theorem removeClient_control? (i : ListenerId) (b : Broker σ) :
    (b.removeClient i).2.control? = b.control? := by
  unfold removeClient control?
  cases b.supervisor <;> rfl

theorem Op.run_controls (hI : Stable ok clock I) (h : b.Controls I) {op : Op σ}
    (hop : ∀ id q, op = .reserve id q → q.gang = true → q.fault? = none →
      ok (Reservation.ofRequest id q clock)) :
    (op.run C clock b).Controls I := by
  cases op with
  | reserve id q => exact h.reserve C clock hI id (hop id q rfl)
  | release hd id n => exact (h.forgetOf clock hI hd id).with_desk _
  | releaseHandle hd n => exact (h.forgetWhere clock hI _).with_desk _
  | releaseQueue q n => exact (h.forgetWhere clock hI _).with_desk _
  | start => exact h.with_desk _
  | nodes => exact h.with_desk _
  | deliver cs => exact h.follow clock hI.toSettles _ _
  | halt order => exact h.follow clock hI.toSettles _ _
  | avoidDeadlock now => exact h.avoidDeadlock C clock now hI
  | retry now => exact h.retry C clock now hI
  | turn => exact (h.avoidDeadlock C clock clock hI).retry C clock clock hI
  | roll dice => exact .modifyControl fun c hc => hI.roll dice (h c hc)
  | addClient x => exact h.of_control (addClient_control? x b)
  | removeClient i => exact h.of_control (removeClient_control? i b)
  | tend f => exact h.with_desk _
  | stop => exact h.with_desk _

theorem after_controls (hI : ∀ clock, Stable ok clock I) (h : b.Controls I)
    {run : List (Time × Op σ)} (hok : ∀ e ∈ run, ∀ id q, e.2 = .reserve id q → q.gang = true →
      q.fault? = none → ok (.ofRequest id q e.1)) : (after C run b).Controls I := by
  induction run generalizing b with
  | nil => exact h
  | cons e run ih =>
    obtain ⟨he, hrun⟩ := List.forall_mem_cons.1 hok
    exact ih (Op.run_controls C e.1 (hI e.1) h he) hrun

end Broker

end ClusterBroker
