import Mathlib.Data.List.Nodup
import ClusterBroker.Proofs.Connector

/-!
# Traffic with the manager

What the manager hands out has an id of the manager's, and goes by the id of a resource, which may
change. A traced connector keeps a log of everything that bears on this: releases, renamings to
which the manager agreed, what it reports, and that it stops. So the log alone tells the name of
everything that was handed out.

A change of what is held is conservative if all that is held afterwards is held once and by its
name, if all that was passed to a release was passed by its name, and if nothing is missing
that was not released or reported by its name, unless the manager stopped.
-/
namespace ClusterBroker

/-- By which resource id the manager knows what it handed out. -/
abbrev Names := ManagerId → Option ResourceId

/-- What is held: an id of the manager's, and the resource id by which it goes. -/
abbrev Holding := ManagerId × ResourceId

def Resource.holding (x : Resource) : Option Holding :=
  x.allocation.map fun a => (a.managerId, x.id)

inductive Traffic where
  /-- The manager agreed to a new name. -/
  | renamed (m : ManagerId) (id : ResourceId)
  | released (rs : List Resource)
  | reported (c : Change)
  | halted

/-- Everything is held once, and by its name. -/
structure Named (names : Names) (held : List Holding) : Prop where
  once : (held.map Prod.fst).Nodup
  known : ∀ p ∈ held, names p.1 = some p.2

namespace Traffic

/-- The names afterwards. Whatever goes by a released id loses its name, also if the manager says
that the release failed, and what has no name gets none by a renaming. -/
def rename (t : Traffic) (names : Names) : Names := fun m =>
  match t with
  | .renamed k id => if m = k then (names m).map fun _ => id else names m
  | .released rs => (names m).filter fun id => rs.all fun r => r.id ≠ id
  | .reported (.allocated id a) => if m = a.managerId then some id else names m
  | .reported _ => names m
  | .halted => names m

/-- What goes by `m` is given back or taken away here. -/
def Parts (t : Traffic) (names : Names) (m : ManagerId) : Prop :=
  match t with
  | .renamed .. => False
  | .released rs => ∃ r ∈ rs, names m = some r.id
  | .reported c => names m = some c.resource
  | .halted => True

/-- A release gives nothing back twice, and everything by its name. -/
def Honest (t : Traffic) (names : Names) : Prop :=
  match t with
  | .released rs => Named names (rs.filterMap Resource.holding)
  | _ => True

end Traffic

def renameAll (log : List Traffic) (names : Names) : Names :=
  log.foldl (fun n t => t.rename n) names

/-- The names after everything in a log. -/
def naming (log : List Traffic) : Names := renameAll log fun _ => none

def Parted : List Traffic → Names → ManagerId → Prop
  | [], _, _ => False
  | t :: log, names, m => t.Parts names m ∨ Parted log (t.rename names) m

def AllHonest : List Traffic → Names → Prop
  | [], _ => True
  | t :: log, names => t.Honest names ∧ AllHonest log (t.rename names)

theorem renameAll_append (log log' : List Traffic) (names : Names) :
    renameAll (log ++ log') names = renameAll log' (renameAll log names) := by
  unfold renameAll
  rw [List.foldl_append]

theorem naming_append (log log' : List Traffic) :
    naming (log ++ log') = renameAll log' (naming log) := renameAll_append log log' _

theorem naming_concat (log : List Traffic) (t : Traffic) :
    naming (log ++ [t]) = t.rename (naming log) := naming_append log [t]

theorem parted_append {log log' : List Traffic} {names : Names} {m : ManagerId} :
    Parted (log ++ log') names m ↔ Parted log names m ∨ Parted log' (renameAll log names) m := by
  induction log generalizing names with
  | nil => simp [Parted, renameAll]
  | cons t log ih =>
    simp only [List.cons_append, Parted, ih, or_assoc]
    rfl

theorem allHonest_append {log log' : List Traffic} {names : Names} :
    AllHonest (log ++ log') names ↔ AllHonest log names ∧ AllHonest log' (renameAll log names) := by
  induction log generalizing names with
  | nil => simp [AllHonest, renameAll]
  | cons t log ih =>
    simp only [List.cons_append, AllHonest, ih, and_assoc]
    rfl

/-! ### Holdings by their names -/

theorem Named.perm {names : Names} {held held' : List Holding} (h : Named names held)
    (hp : held.Perm held') : Named names held' :=
  ⟨(hp.map Prod.fst).nodup_iff.1 h.once, fun p hm => h.known p (hp.mem_iff.2 hm)⟩

theorem Named.sublist {names : Names} {held held' : List Holding} (h : Named names held)
    (hs : held'.Sublist held) : Named names held' :=
  ⟨h.once.sublist (hs.map Prod.fst), fun p hm => h.known p (hs.subset hm)⟩

theorem Named.inj {names : Names} {held : List Holding} (h : Named names held) {p q : Holding}
    (hp : p ∈ held) (hq : q ∈ held) (he : p.1 = q.1) : p = q := by
  have hn : some p.2 = some q.2 := by rw [← h.known p hp, ← h.known q hq, he]
  exact Prod.ext he (Option.some.inj hn)

/-- Holdings of different ids are different holdings. -/
theorem Named.of_mem {names : Names} {held held' : List Holding} (h : Named names held)
    (hs : ∀ p ∈ held', p ∈ held) (hn : (held'.map Prod.snd).Nodup) : Named names held' := by
  refine ⟨?_, fun p hp => h.known p (hs p hp)⟩
  refine List.Nodup.map_on (fun p hp q hq he => h.inj (hs p hp) (hs q hq) he) ?_
  exact hn.of_map Prod.snd

/-- Whoever keeps its name stays named. -/
theorem Named.congr {names names' : Names} {held : List Holding} (h : Named names held)
    (hn : ∀ p ∈ held, names' p.1 = names p.1) : Named names' held :=
  ⟨h.once, fun p hp => by rw [hn p hp, h.known p hp]⟩

/-! ### Conservative changes -/

structure Conserves (held : List Holding) (log : List Traffic) (held' : List Holding)
    (log' : List Traffic) : Prop where
  named : Named (naming log') held'
  accounts : ∃ new, log' = log ++ new ∧ AllHonest new (naming log) ∧
    ∀ p ∈ held, p.1 ∈ held'.map Prod.fst ∨ Parted new (naming log) p.1

variable {held held' held'' : List Holding} {log log' log'' : List Traffic}

theorem Conserves.of_perm (h : Named (naming log) held) (hp : held.Perm held') :
    Conserves held log held' log :=
  ⟨h.perm hp, [], (List.append_nil log).symm, trivial,
    fun _ hm => .inl (List.mem_map_of_mem (hp.mem_iff.1 hm))⟩

theorem Conserves.refl (h : Named (naming log) held) : Conserves held log held log :=
  .of_perm h (.refl held)

theorem Conserves.trans (h : Conserves held log held' log')
    (h' : Conserves held' log' held'' log'') : Conserves held log held'' log'' := by
  obtain ⟨new, rfl, hh, hm⟩ := h.accounts
  obtain ⟨new', rfl, hh', hm'⟩ := h'.accounts
  rw [naming_append] at hh' hm'
  refine ⟨h'.named, new ++ new', List.append_assoc .., allHonest_append.2 ⟨hh, hh'⟩, fun p hp => ?_⟩
  rw [parted_append]
  rcases hm p hp with hin | hout
  · obtain ⟨q, hq, he⟩ := List.mem_map.1 hin
    have hq' := hm' q hq
    rw [he] at hq'
    exact hq'.imp_right .inr
  · exact .inr (.inl hout)

/-- One thing passes. -/
theorem Conserves.of_traffic {t : Traffic} (hn : Named (t.rename (naming log)) held')
    (hh : t.Honest (naming log))
    (hm : ∀ p ∈ held, p.1 ∈ held'.map Prod.fst ∨ t.Parts (naming log) p.1) :
    Conserves held log held' (log ++ [t]) := by
  rw [← naming_concat] at hn
  exact ⟨hn, [t], rfl, ⟨hh, trivial⟩, fun p hp => (hm p hp).imp_right .inl⟩

theorem mem_fst_of_perm_append {gone : List Holding} (hp : held.Perm (held' ++ gone))
    {p : Holding} (hm : p ∈ held) : p.1 ∈ held'.map Prod.fst ∨ p ∈ gone := by
  rcases List.mem_append.1 (hp.mem_iff.1 hm) with hin | hout
  · exact .inl (List.mem_map_of_mem hin)
  · exact .inr hout

/-- What goes by the ids of a release is no longer held, everything else is. -/
theorem Conserves.release {rs : List Resource} {gone : List Holding}
    (h : Named (naming log) held) (hp : held.Perm (held' ++ gone))
    (hgone : ∀ p ∈ gone, p.2 ∈ rs.map Resource.id) (hleft : ∀ p ∈ held', p.2 ∉ rs.map Resource.id)
    (hrs : Named (naming log) (rs.filterMap Resource.holding)) :
    Conserves held log held' (log ++ [.released rs]) := by
  have hall := h.perm hp
  have hleft' : Named (naming log) held' := hall.sublist (List.sublist_append_left ..)
  refine .of_traffic (hleft'.congr fun p hm => ?_) hrs fun p hm => ?_
  · have hall : (rs.all fun r => r.id ≠ p.2) = true := by
      rw [List.all_eq_true]
      exact fun r hr => decide_eq_true fun he => hleft p hm (he ▸ List.mem_map_of_mem hr)
    simp only [Traffic.rename]
    rw [hleft'.known p hm, Option.filter_some, if_pos hall]
  · refine (mem_fst_of_perm_append hp hm).imp_right fun hg => ?_
    obtain ⟨r, hr, he⟩ := List.mem_map.1 (hgone p hg)
    exact ⟨r, hr, by rw [h.known p hm, he]⟩

theorem Conserves.rename {m : ManagerId} {id : ResourceId} {rest : List Holding}
    (h : Named (naming log) held) (hp : held.Perm ((m, id) :: rest)) (id' : ResourceId) :
    Conserves held log ((m, id') :: rest) (log ++ [.renamed m id']) := by
  have hall := h.perm hp
  have honce : m ∉ rest.map Prod.fst ∧ (rest.map Prod.fst).Nodup := List.nodup_cons.1 hall.once
  refine .of_traffic ⟨hall.once, fun p hm => ?_⟩ trivial fun p hm => .inl ?_
  · rcases List.mem_cons.1 hm with rfl | hm
    · have hk := hall.known (m, id) (List.mem_cons_self ..)
      simp only [Traffic.rename, if_true]
      rw [hk]
      rfl
    · have hne : p.1 ≠ m := fun he => honce.1 (he ▸ List.mem_map_of_mem hm)
      simp only [Traffic.rename]
      rw [if_neg hne]
      exact hall.known p (List.mem_cons_of_mem _ hm)
  · have hfst := List.mem_map_of_mem (f := Prod.fst) (hp.mem_iff.1 hm)
    exact hfst

/-- What the manager reports about may be gone, nothing else. What it hands out is new, or is held
by this very name. -/
theorem Conserves.report {c : Change} {gone : List Holding} (h : Named (naming log) held)
    (hp : held.Perm (held' ++ gone)) (hgone : ∀ p ∈ gone, p.2 = c.resource)
    (hnew : ∀ id a, c = .allocated id a → ∀ p ∈ held', p.1 = a.managerId → p.2 = id) :
    Conserves held log held' (log ++ [.reported c]) := by
  have hall := h.perm hp
  have hleft : Named (naming log) held' := hall.sublist (List.sublist_append_left ..)
  refine .of_traffic (hleft.congr fun p hm => ?_) trivial fun p hm => ?_
  · cases c with
    | allocated id a =>
      simp only [Traffic.rename]
      split
      next he => rw [hleft.known p hm, hnew id a rfl p hm he]
      next => rfl
    | rejected | preempted | lost => rfl
  · refine (mem_fst_of_perm_append hp hm).imp_right fun hg => ?_
    exact (h.known p hm).trans (congrArg some (hgone p hg))

/-- What the manager hands out is held from now on, in the place of what went by this name. -/
theorem Conserves.grant {id : ResourceId} {a : Allocation} {rest gone : List Holding}
    (h : Named (naming log) held) (hp : held.Perm (rest ++ gone)) (hgone : ∀ p ∈ gone, p.2 = id)
    (hrest : ∀ p ∈ rest, p.1 ≠ a.managerId) :
    Conserves held log ((a.managerId, id) :: rest) (log ++ [.reported (.allocated id a)]) := by
  have hall := h.perm hp
  have hleft : Named (naming log) rest := hall.sublist (List.sublist_append_left ..)
  refine .of_traffic ⟨?_, fun p hm => ?_⟩ trivial fun p hm => ?_
  · rw [List.map_cons, List.nodup_cons]
    refine ⟨fun hin => ?_, hleft.once⟩
    obtain ⟨p, hp, he⟩ := List.mem_map.1 hin
    exact hrest p hp he
  · simp only [Traffic.rename]
    rcases List.mem_cons.1 hm with rfl | hm
    · exact if_pos rfl
    · rw [if_neg (hrest p hm)]
      exact hleft.known p hm
  · rcases mem_fst_of_perm_append hp hm with hin | hg
    · exact .inl (List.mem_cons_of_mem _ hin)
    · exact .inr ((h.known p hm).trans (congrArg some (hgone p hg)))

/-- Anything may be gone when the manager stops. -/
theorem Conserves.halt {gone : List Holding} (h : Named (naming log) held)
    (hp : held.Perm (held' ++ gone)) : Conserves held log held' (log ++ [.halted]) := by
  have hleft : Named (naming log) held' := (h.perm hp).sublist (List.sublist_append_left ..)
  exact .of_traffic (t := .halted) hleft trivial fun p _ => .inr trivial

/-! ### Traced connectors -/

/-- The state of a connector and the log of its traffic. -/
structure Traced (σ : Type) where
  state : σ
  log : List Traffic := []

variable {σ : Type}

def Traced.lift (d : Delivery σ) : Delivery (Traced σ) :=
  ⟨d.changes, fun s => ⟨d.passing s.state, s.log ++ d.changes.map .reported⟩⟩

/-- The connector with a log. It answers as without. -/
def Connector.traced (C : Connector σ) : Connector (Traced σ) where
  register q s := ((C.register q s.state).1, { s with state := (C.register q s.state).2 })
  unregister t s := ((C.unregister t s.state).1, { s with state := (C.unregister t s.state).2 })
  nodes s := ((C.nodes s.state).1, { s with state := (C.nodes s.state).2 })
  reserve t rs s :=
    let a := C.reserve t rs s.state
    (a.1, a.2.1.map Traced.lift, { s with state := a.2.2 })
  release t rs n s :=
    let a := C.release t rs n s.state
    (a.1, ⟨a.2, s.log ++ [.released rs]⟩)
  reassign m id s :=
    let a := C.reassign m id s.state
    match a.1 with
    | .ok true => (a.1, ⟨a.2, s.log ++ [.renamed m id]⟩)
    | _ => (a.1, { s with state := a.2 })
  incoming cs s := ⟨C.incoming cs s.state, s.log ++ cs.map .reported⟩
  halted s := ⟨C.halted s.state, s.log ++ [.halted]⟩

theorem Connector.traced_silent {C : Connector σ} (h : C.Silent) : C.traced.Silent := by
  intro t rs s f hf
  have hs := h t rs s.state f hf
  change ((C.reserve t rs s.state).2.1.map Traced.lift) = []
  rw [hs, List.map_nil]

end ClusterBroker
