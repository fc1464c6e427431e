import ClusterBroker.Proofs.Ledger.Resources

/-!
# Who holds what the manager handed out

The manager calls what it hands out by ids of its own. A change that hands out something else
leaves it with the resource that it was allocated to, or takes that resource away. A gang that is
complete, and anything that is not a gang, is not torn down once it holds something. So a resource
that keeps what it was allocated although the manager reported it lost is there until its
reservation is released.
-/
namespace ClusterBroker

/-- The resource was allocated what the manager calls `m`. -/
def Resource.holds (m : ManagerId) (x : Resource) : Bool :=
  x.allocation.any fun a => a.managerId = m

/-- The manager hands out what it calls `m`. -/
def Change.grants (m : ManagerId) : Change → Bool
  | .allocated _ a => a.managerId = m
  | _ => false

/-- The manager takes back what it allocated to the resource `k`. -/
def Change.Takes (k : ResourceId) (c : Change) : Prop := c = .preempted k ∨ c = .lost k

/-- What is torn down has nothing yet, or it is an incomplete gang. -/
theorem Verdict.tearDown_cases {kind : Resource.Status} {s : Reservation.Status} {gang b : Bool}
    (h : Verdict.of kind s gang = .tearDown b) : s = .pending ∨ s = .partly ∧ gang = true := by
  revert h
  cases kind <;> cases s <;> cases gang <;> simp [Verdict.of]

theorem Resource.holds_allocate (m : ManagerId) (x : Resource) (a : Allocation) :
    (x.allocate a).holds m = decide (a.managerId = m) := rfl

theorem Resource.Settled.isAllocated_of_holds {m : ManagerId} {x : Resource} (hs : x.Settled)
    (h : x.holds m = true) : x.isAllocated = true := by
  cases hx : x.isAllocated with
  | true => rfl
  | false =>
    unfold holds at h
    rw [hs.allocation_eq_none.2 hx] at h
    simp at h

theorem Reservation.Sound.not_pending_of_holds {r : Reservation} (hr : r.Sound) {m : ManagerId}
    {x : Resource} (hx : x ∈ r.resources) (h : x.holds m = true) : r.status ≠ .pending := by
  intro hp
  have hal := (hr.settled x hx).isAllocated_of_holds h
  rw [hr.pending_iff.1 hp x hx] at hal
  simp at hal

namespace Ledger

variable {l l' : Ledger} {m : ManagerId} {k : ResourceId} {now : Time} {c : Change}
  {e : Option Effect}

/-- Nothing but the resource `k` holds what the manager calls `m`. -/
def Only (m : ManagerId) (k : ResourceId) (l : Ledger) : Prop :=
  ∀ id r, l.get? id = some r → ∀ x ∈ r.resources, x.holds m = true → x.id = k

/-- No incomplete gang holds what the manager calls `m`. -/
def Firm (m : ManagerId) (l : Ledger) : Prop :=
  ∀ id r, l.get? id = some r → ∀ x ∈ r.resources, x.holds m = true →
    r.gang = true → r.status = .allocated

/-! ### Taking in and giving back -/

theorem Only.of_sub (h : l.Only m k) (hs : ∀ id r, l'.get? id = some r → l.get? id = some r) :
    l'.Only m k := fun id r hr => h id r (hs id r hr)

theorem Firm.of_sub (h : l.Firm m) (hs : ∀ id r, l'.get? id = some r → l.get? id = some r) :
    l'.Firm m := fun id r hr => h id r (hs id r hr)

/-- What was just placed holds nothing. -/
theorem holds_of_fresh {r : Reservation} (hr : r.Fresh) {x : Resource} (hx : x ∈ r.resources) :
    x.holds m = false := by
  unfold Resource.holds
  rw [hr.allocation_eq_none x hx]
  rfl

theorem Only.add (h : l.Only m k) {r : Reservation} (hr : r.Fresh) : (l.add r).Only m k := by
  intro id s hs x hx hm
  rw [get?_add] at hs
  split at hs
  next =>
    rw [← Option.some.inj hs] at hx
    rw [holds_of_fresh hr hx] at hm
    simp at hm
  next => exact h id s hs x hx hm

theorem Firm.add (h : l.Firm m) {r : Reservation} (hr : r.Fresh) : (l.add r).Firm m := by
  intro id s hs x hx hm
  rw [get?_add] at hs
  split at hs
  next =>
    rw [← Option.some.inj hs] at hx
    rw [holds_of_fresh hr hx] at hm
    simp at hm
  next => exact h id s hs x hx hm

/-! ### One change -/

/-- Whoever holds it after a change that does not hand it out held it before. -/
theorem Applied.holder (h : l.Sound) (ha : Applied now l c l' e) (hc : c.grants m = false)
    {id : ReservationId} {s : Reservation} (hs : l'.get? id = some s) {x : Resource}
    (hx : x ∈ s.resources) (hm : x.holds m = true) : ∃ r, l.get? id = some r ∧ x ∈ r.resources ∧
      s.gang = r.gang ∧ (r.status = .allocated → s.status = .allocated) := by
  cases ha with
  | unknown | repeated | illegal | reported => exact ⟨s, hs, hx, rfl, fun h => h⟩
  | @granted k a r y hr hy hn =>
    rw [get?_update] at hs
    split at hs
    next he =>
      have hid := Reservation.grant_id (h.sound hr) now k a
      rw [← Option.some.inj hs] at hx ⊢
      rw [hid] at he
      subst he
      refine ⟨r, hr, ?_, ?_, fun hall => ?_⟩
      · rw [Reservation.grant_resources (h.sound hr)] at hx
        obtain ⟨z, hz, hzx⟩ := List.mem_map.1 hx
        split at hzx
        next =>
          rw [← hzx, Resource.holds_allocate] at hm
          change decide (a.managerId = m) = false at hc
          rw [hc] at hm
          simp at hm
        next =>
          rw [← hzx]
          exact hz
      · exact (Reservation.claim_eq_iff.1 (Reservation.grant_claim (h.sound hr) now k a)).2.2.2.1
      · obtain ⟨hmem, -⟩ := Reservation.mem_of_resource? hy
        rw [(h.sound hr).allocated_iff.1 hall y hmem] at hn
        simp at hn
    next => exact ⟨s, hs, hx, rfl, fun h => h⟩
  | @tornDown _ r _ hr _ _ =>
    rw [get?_drop] at hs
    split at hs
    next => simp at hs
    next => exact ⟨s, hs, hx, rfl, fun h => h⟩

theorem Only.applied (ho : l.Only m k) (h : l.Sound) (ha : Applied now l c l' e)
    (hc : c.grants m = false) : l'.Only m k := by
  intro id s hs x hx hm
  obtain ⟨r, hr, hxr, -⟩ := ha.holder h hc hs hx hm
  exact ho id r hr x hxr hm

theorem Firm.applied (hf : l.Firm m) (h : l.Sound) (ha : Applied now l c l' e)
    (hc : c.grants m = false) : l'.Firm m := by
  intro id s hs x hx hm hg
  obtain ⟨r, hr, hxr, hgang, hstat⟩ := ha.holder h hc hs hx hm
  rw [hgang] at hg
  exact hstat (hf id r hr x hxr hm hg)

/-- A reservation that is torn down holds nothing, unless it is an incomplete gang. -/
theorem Firm.givenUp (hf : l.Firm m) (h : l.Sound) (ha : Applied now l c l' e) :
    ∀ x ∈ givenUp e, x.holds m = false := by
  intro x hx
  cases ha with
  | unknown | repeated | illegal | granted | reported =>
    simp [Ledger.givenUp] at hx
  | @tornDown _ r b hr _ hv =>
    cases hm : x.holds m with
    | false => rfl
    | true =>
      have hxr : x ∈ r.resources := List.mem_of_mem_filter hx
      have hpend := (h.sound hr).not_pending_of_holds hxr hm
      have hgang : r.gang = true → r.status = .allocated := hf _ r hr x hxr hm
      rcases Verdict.tearDown_cases hv with hs | ⟨hs, hg⟩
      · exact absurd hs hpend
      · rw [hgang hg] at hs
        simp at hs

/-- What was reported as taken back is not held by an incomplete gang any more: a gang that had it
is torn down, unless it is complete. -/
theorem Only.firm_of_takes (ho : l.Only m k) (h : l.Sound) (ha : Applied now l c l' e)
    (hc : c.Takes k) : l'.Firm m := by
  have hgrants : c.grants m = false := by rcases hc with rfl | rfl <;> rfl
  have hres : c.resource = k := by rcases hc with rfl | rfl <;> rfl
  intro id s hs x hx hm hg
  obtain ⟨r, hr, hxr, hgang, hstat⟩ := ha.holder h hgrants hs hx hm
  apply hstat
  have hkr : c.resource ∈ r.resourceIds := by
    rw [hres, ← ho id r hr x hxr hm]
    exact List.mem_map_of_mem hxr
  have hpend := (h.sound hr).not_pending_of_holds hxr hm
  rw [hgang] at hg
  have hverdict : ∀ t, l.get? t.id = some t → c.resource ∈ t.resourceIds →
      (∀ b, Verdict.of c.status t.status t.gang ≠ .tearDown b) → r.status = .allocated := by
    intro t ht hkt hv
    have htr := h.eq_of_shared ht hr hkt hkr
    subst htr
    rcases (h.sound hr).status_cases with hs | hs | hs
    · exact absurd hs hpend
    · exfalso
      rw [hs, hg] at hv
      rcases hc with rfl | rfl <;> exact hv false rfl
    · exact hs
  cases ha with
  | unknown hn =>
    rw [h.index_iff.2 ⟨r, hr, hkr⟩] at hn
    simp at hn
  | repeated | granted => rcases hc with hc | hc <;> simp at hc
  | illegal ht hkt _ hv => exact hverdict _ ht hkt (by simp [hv])
  | reported ht hkt hv => exact hverdict _ ht hkt (by simp [hv])
  | @tornDown _ t _ ht hkt _ =>
    have htr := h.eq_of_shared ht hr hkt hkr
    subst htr
    rw [get?_drop, if_pos (h.id_eq hr)] at hs
    simp at hs

/-! ### A batch -/

variable {b : Batch} {cs : List Change}

theorem Batch.step_sound (h : b.ledger.Sound) (now : Time) (c : Change) :
    (b.step now c).ledger.Sound := by
  rw [Batch.step_ledger]
  exact (apply_applied h now c).sound h

/-- What every change keeps that does not hand it out, a batch of such changes keeps. -/
theorem Batch.foldl_keeps {p : Batch → Prop}
    (hp : ∀ b c, b.ledger.Sound → c.grants m = false → p b → p (b.step now c))
    (h : b.ledger.Sound) (hcs : ∀ c ∈ cs, c.grants m = false) (hb : p b) :
    p (cs.foldl (Batch.step now) b) := by
  induction cs generalizing b with
  | nil => exact hb
  | cons c cs ih =>
    apply ih (Batch.step_sound h now c)
    · exact fun x hx => hcs x (List.mem_cons_of_mem _ hx)
    · exact hp b c h (hcs c (List.mem_cons_self ..)) hb

theorem Batch.step_only (ho : b.ledger.Only m k) (h : b.ledger.Sound) (hc : c.grants m = false) :
    (b.step now c).ledger.Only m k := by
  rw [Batch.step_ledger]
  exact ho.applied h (apply_applied h now c) hc

theorem Batch.step_firm (hf : b.ledger.Firm m) (h : b.ledger.Sound) (hc : c.grants m = false) :
    (b.step now c).ledger.Firm m := by
  rw [Batch.step_ledger]
  exact hf.applied h (apply_applied h now c) hc

theorem Batch.step_toRelease_spares (hf : b.ledger.Firm m) (h : b.ledger.Sound)
    (hrel : ∀ x ∈ b.toRelease, x.holds m = false) (now : Time) (c : Change) :
    ∀ x ∈ (b.step now c).toRelease, x.holds m = false := by
  intro x hx
  rw [Batch.step_toRelease] at hx
  rcases List.mem_append.1 hx with hx | hx
  · exact hrel x hx
  · exact hf.givenUp h (apply_applied h now c) x hx

theorem Batch.foldl_only (ho : b.ledger.Only m k) (h : b.ledger.Sound)
    (hcs : ∀ c ∈ cs, c.grants m = false) : (cs.foldl (Batch.step now) b).ledger.Only m k :=
  Batch.foldl_keeps (p := fun b => b.ledger.Only m k)
    (fun _ _ h hc ho => step_only ho h hc) h hcs ho

theorem Batch.foldl_firm (hf : b.ledger.Firm m) (h : b.ledger.Sound)
    (hcs : ∀ c ∈ cs, c.grants m = false) : (cs.foldl (Batch.step now) b).ledger.Firm m :=
  Batch.foldl_keeps (p := fun b => b.ledger.Firm m) (fun _ _ h hc hf => step_firm hf h hc) h hcs hf

theorem Batch.foldl_toRelease (hf : b.ledger.Firm m) (h : b.ledger.Sound)
    (hcs : ∀ c ∈ cs, c.grants m = false) (hrel : ∀ x ∈ b.toRelease, x.holds m = false) :
    ∀ x ∈ (cs.foldl (Batch.step now) b).toRelease, x.holds m = false := by
  apply And.right
  apply Batch.foldl_keeps (p := fun b => b.ledger.Firm m ∧ ∀ x ∈ b.toRelease, x.holds m = false)
    (fun b c h hc hb => ?_) h hcs ⟨hf, hrel⟩
  exact ⟨step_firm hb.1 h hc, step_toRelease_spares hb.1 h hb.2 now c⟩

/-- A batch that says that it was taken back. -/
theorem Batch.foldl_takes (ho : b.ledger.Only m k) (h : b.ledger.Sound)
    (hcs : ∀ c ∈ cs, c.grants m = false) (hk : ∃ c ∈ cs, c.Takes k) :
    (cs.foldl (Batch.step now) b).ledger.Firm m := by
  induction cs generalizing b with
  | nil => simp at hk
  | cons c cs ih =>
    have hone := hcs c (List.mem_cons_self ..)
    have hrest : ∀ x ∈ cs, x.grants m = false := fun x hx => hcs x (List.mem_cons_of_mem _ hx)
    obtain ⟨t, ht, htk⟩ := hk
    rw [List.foldl_cons]
    -- The first change that speaks of `k` settles it, and no change before it moves what `k` holds.
    rcases List.mem_cons.1 ht with rfl | ht
    · have hfirm : (b.step now t).ledger.Firm m := by
        rw [Batch.step_ledger]
        exact ho.firm_of_takes h (apply_applied h now t) htk
      exact Batch.foldl_firm hfirm (Batch.step_sound h now t) hrest
    · exact ih (Batch.step_only ho h hone) (Batch.step_sound h now c) hrest ⟨t, ht, htk⟩

end Ledger

end ClusterBroker
