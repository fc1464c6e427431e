import ClusterBroker.Proofs.CachedConnector.Serving
import ClusterBroker.ScriptedManager

/-!
# What becomes of every resource that is given back

A cached connector keeps what it can under fresh ids and gives the rest back, again one resource at
a time and with an account of each. As long as the supply of ids lasts, every resource is in the
cache or is given back, and nothing that was in the cache is gone.
-/
namespace ClusterBroker.CachedConnector

variable {σ : Type} {C : Connector σ} (clock : Time) {s s' s'' : CachedConnector (Recorded σ)}

/-! ### One resource -/

/-- What became of a resource that was given back: it had no allocation, it would not move to a
fresh id, or it is kept under this id. -/
inductive Stay where
  | unallocated
  | declined (m : ManagerId) (fresh : ResourceId) (answer : Except ConnectorFault Bool)
  | kept (e : CacheEntry)

namespace Stay

def isKept : Stay → Bool
  | .kept _ => true
  | _ => false

def keeps : Stay → List CacheEntry
  | .kept e => [e]
  | _ => []

/-- The calls on the inner connector that this took. -/
def calls : Stay → List Call
  | .unallocated => []
  | .declined m fresh answer => [.reassign m fresh answer]
  | .kept e => [.reassign e.allocation.managerId e.id (.ok true)]

def fresh? : Stay → Option ResourceId
  | .unallocated => none
  | .declined _ fresh _ => some fresh
  | .kept e => some e.id

/-- What stays is this very resource with its allocation. -/
def Sound (clock : Time) (r : Resource) : Stay → Prop
  | .unallocated => r.allocation = none
  | .declined m _ answer => r.allocation.map Allocation.managerId = some m ∧ answer ≠ .ok true
  | .kept e => e.released = r ∧ r.allocation = some e.allocation ∧ e.cachedOn = clock

end Stay

/-! ### A batch -/

/-- The resources of a batch, in order, with what became of them. -/
abbrev Stays := List (Resource × Stay)

namespace Stays

def kept (acc : Stays) : List CacheEntry := acc.flatMap fun x => x.2.keeps

def left (acc : Stays) : List Resource := (acc.filter fun x => !x.2.isKept).map Prod.fst

def calls (acc : Stays) : List Call := acc.flatMap fun x => x.2.calls

end Stays

variable {mint : Nat → ResourceId} {last : Nat}

/-- The ids that are yet to be drawn, up to a last one, are not in use and differ. -/
structure Supplied (mint : Nat → ResourceId) (last : Nat) (s : CachedConnector (Recorded σ)) :
    Prop where
  free : ∀ n, s.drawn ≤ n → n < last → s.cache.entries.get? (mint n) = none
  distinct : ∀ m n, s.drawn ≤ m → m < n → n < last → mint m ≠ mint n

/-- A batch was gone through: what is said of it, and what is in the cache now. -/
structure Stores (mint : Nat → ResourceId) (clock : Time) (last : Nat) (acc : Stays)
    (s s' : CachedConnector (Recorded σ)) : Prop where
  sound : ∀ x ∈ acc, x.2.Sound clock x.1
  fresh : ∀ x ∈ acc, ∀ id, x.2.fresh? = some id → ∃ n, s.drawn ≤ n ∧ n < s'.drawn ∧ mint n = id
  calls : s'.inner.calls = s.inner.calls ++ acc.calls
  perm : s'.cache.entries.values.Perm (acc.kept ++ s.cache.entries.values)
  indexed : s'.cache.Indexed
  supplied : Supplied mint last s'
  le_drawn : s.drawn ≤ s'.drawn
  drawn_le : s'.drawn ≤ s.drawn + acc.length

theorem Stores.one {r : Resource} {f : Stay} (hsound : f.Sound clock r)
    (hcalls : s'.inner.calls = s.inner.calls ++ f.calls)
    (hperm : s'.cache.entries.values.Perm (f.keeps ++ s.cache.entries.values))
    (hindexed : s'.cache.Indexed) (hsupplied : Supplied mint last s')
    (hfresh : f.fresh? = none ∧ s'.drawn = s.drawn ∨
      f.fresh? = some (mint s.drawn) ∧ s'.drawn = s.drawn + 1) :
    Stores mint clock last [(r, f)] s s' := by
  refine ⟨fun x hx => ?_, fun x hx id hid => ?_, ?_, ?_, hindexed, hsupplied, ?_, ?_⟩
  · rw [List.mem_singleton.1 hx]
    exact hsound
  · rw [List.mem_singleton.1 hx] at hid
    rcases hfresh with ⟨hf, -⟩ | ⟨hf, hd⟩
    · rw [hf] at hid
      simp at hid
    · rw [hf] at hid
      exact ⟨s.drawn, Nat.le_refl _, by omega, Option.some.inj hid⟩
  · rw [hcalls]
    exact congrArg _ (List.flatMap_singleton ..).symm
  · rw [show Stays.kept [(r, f)] = f.keeps from List.flatMap_singleton ..]
    exact hperm
  · omega
  · rw [List.length_singleton]
    omega

theorem Stores.refl (h : s.cache.Indexed) (hs : Supplied mint last s) :
    Stores mint clock last [] s s :=
  ⟨by simp, by simp, (List.append_nil _).symm, .refl _, h, hs, Nat.le_refl _, Nat.le_refl _⟩

theorem Stores.trans {acc acc' : Stays} (h : Stores mint clock last acc s s')
    (h' : Stores mint clock last acc' s' s'') : Stores mint clock last (acc ++ acc') s s'' := by
  have hd := h.drawn_le
  have hd' := h'.drawn_le
  refine ⟨fun x hx => ?_, fun x hx id hid => ?_, ?_, ?_, h'.indexed, h'.supplied,
    Nat.le_trans h.le_drawn h'.le_drawn, ?_⟩
  · rcases List.mem_append.1 hx with hx | hx
    · exact h.sound x hx
    · exact h'.sound x hx
  · rcases List.mem_append.1 hx with hx | hx
    · obtain ⟨n, hle, hlt, hn⟩ := h.fresh x hx id hid
      exact ⟨n, hle, Nat.lt_of_lt_of_le hlt h'.le_drawn, hn⟩
    · obtain ⟨n, hle, hlt, hn⟩ := h'.fresh x hx id hid
      exact ⟨n, Nat.le_trans h.le_drawn hle, hlt, hn⟩
  · rw [h'.calls, h.calls, List.append_assoc]
    exact congrArg _ List.flatMap_append.symm
  · have hkept : Stays.kept (acc ++ acc') = acc.kept ++ Stays.kept acc' := List.flatMap_append
    rw [hkept, List.append_assoc]
    refine (h'.perm.trans (h.perm.append_left _)).trans ?_
    exact List.perm_append_comm_assoc _ _ _
  · rw [List.length_append]
    omega

theorem keep_account (h : s.cache.Indexed) (hs : Supplied mint last s) (hlast : s.drawn < last)
    (r : Resource) : ∃ f : Stay,
      Stores mint clock last [(r, f)] s (s.keep C.recorded mint clock r).2 ∧
      (s.keep C.recorded mint clock r).1 = f.isKept := by
  unfold keep
  cases ha : r.allocation with
  | none =>
    exact ⟨.unallocated, .one clock ha (List.append_nil _).symm (.refl _) h hs
      (.inl ⟨rfl, rfl⟩), rfl⟩
  | some a =>
    have hcalls : (C.recorded.reassign a.managerId (mint s.drawn) s.inner).2.calls =
        s.inner.calls ++ [.reassign a.managerId (mint s.drawn)
          (C.recorded.reassign a.managerId (mint s.drawn) s.inner).1] := rfl
    dsimp only
    generalize C.recorded.reassign a.managerId (mint s.drawn) s.inner = b at hcalls ⊢
    obtain ⟨answer, below⟩ := b
    dsimp only at hcalls ⊢
    have hfree := hs.free _ (Nat.le_refl _) hlast
    split
    next =>
      obtain ⟨hstored, hentries⟩ := Cache.store_entries clock (mint s.drawn) s.cache ha
      refine ⟨.kept ⟨mint s.drawn, r, a, clock⟩, .one clock ⟨rfl, ha, rfl⟩ hcalls ?_
        (h.store hfree clock r) ⟨fun n hn hn' => ?_, fun m n hm => ?_⟩ (.inr ⟨rfl, rfl⟩), hstored⟩
      · dsimp only
        rw [hentries]
        exact Table.values_insert_perm _ hfree
      · dsimp only
        rw [hentries, Table.get?_insert, if_neg (hs.distinct _ n (Nat.le_refl _) hn hn')]
        exact hs.free n (Nat.le_of_succ_le hn) hn'
      · exact hs.distinct m n (Nat.le_of_succ_le hm)
    next hno =>
      refine ⟨.declined a.managerId (mint s.drawn) answer, .one clock ⟨by rw [ha]; rfl, hno⟩ hcalls
        (.refl _) h ⟨fun n hn => ?_, fun m n hm => ?_⟩ (.inr ⟨rfl, rfl⟩), rfl⟩
      · exact hs.free n (Nat.le_of_succ_le hn)
      · exact hs.distinct m n (Nat.le_of_succ_le hm)

theorem keepAll_account (h : s.cache.Indexed) (hs : Supplied mint last s) {rs : List Resource}
    (hlast : s.drawn + rs.length ≤ last) : ∃ acc : Stays, acc.map Prod.fst = rs ∧
      Stores mint clock last acc s (s.keepAll C.recorded mint clock rs).2 ∧
      (s.keepAll C.recorded mint clock rs).1 = acc.left := by
  induction rs generalizing s with
  | nil => exact ⟨[], rfl, .refl clock h hs, rfl⟩
  | cons r rs ih =>
    rw [List.length_cons] at hlast
    obtain ⟨f, hone, hkept⟩ := keep_account (C := C) clock h hs (by omega) r
    have hdrawn := hone.drawn_le
    rw [List.length_singleton] at hdrawn
    obtain ⟨acc, hrs, hstores, hleft⟩ := ih hone.indexed hone.supplied (by omega)
    refine ⟨(r, f) :: acc, congrArg (r :: ·) hrs, hone.trans clock hstores, ?_⟩
    unfold keepAll
    dsimp only
    rw [hkept, hleft]
    unfold Stays.left
    rw [List.filter_cons]
    cases f.isKept <;> rfl

/-! ### A release -/

namespace Stays

theorem left_sublist (acc : Stays) : acc.left.Sublist (acc.map Prod.fst) :=
  List.filter_sublist.map Prod.fst

theorem kept_left_perm {acc : Stays} (h : ∀ x ∈ acc, x.2.Sound clock x.1) :
    (acc.kept.map CacheEntry.released ++ acc.left).Perm (acc.map Prod.fst) := by
  induction acc with
  | nil => exact .refl _
  | cons x acc ih =>
    obtain ⟨r, f⟩ := x
    obtain ⟨hx, hacc⟩ := List.forall_mem_cons.1 h
    cases f with
    | unallocated | declined => exact List.perm_middle.trans ((ih hacc).cons r)
    | kept e =>
      rw [← show e.released = r from hx.1]
      exact (ih hacc).cons e.released

theorem mem_kept {acc : Stays} {e : CacheEntry} (h : e ∈ acc.kept) : ∃ r, (r, .kept e) ∈ acc := by
  obtain ⟨⟨r, f⟩, hin, hx⟩ := List.mem_flatMap.1 h
  cases f with
  | kept e' =>
    rw [List.mem_singleton.1 hx]
    exact ⟨r, hin⟩
  | unallocated | declined => simp [Stay.keeps] at hx

theorem mem_left {acc : Stays} {r : Resource} (h : r ∈ acc.left) :
    ∃ f : Stay, (r, f) ∈ acc ∧ f.isKept = false := by
  obtain ⟨⟨r', f⟩, hin, rfl⟩ := List.mem_map.1 h
  obtain ⟨hin, hf⟩ := List.mem_filter.1 hin
  exact ⟨f, hin, Bool.not_eq_true' f.isKept |>.mp hf⟩

end Stays

/-- A release of resources that may be kept, what it came to, and the account of it. -/
structure Return (mint : Nat → ResourceId) (clock : Time) (rs : List Resource)
    (s : CachedConnector (Recorded σ)) (out : Answer (CachedConnector (Recorded σ)) Unit)
    (acc : Stays) : Prop where
  /-- Every resource is kept, or it is left to give back, and not both. -/
  once : ∀ r ∈ rs,
    (acc.kept.map (fun e => e.released.id) ++ acc.left.map Resource.id).count r.id = 1
  order : acc.left.Sublist rs
  /-- What is kept moved to a fresh id. -/
  kept : ∀ e ∈ acc.kept, e.released ∈ rs ∧ e.released.allocation = some e.allocation ∧
    e.cachedOn = clock ∧ (∃ n, s.drawn ≤ n ∧ n < out.2.drawn ∧ mint n = e.id) ∧
    .reassign e.allocation.managerId e.id (.ok true) ∈ acc.calls
  left : ∀ r ∈ acc.left, r.allocation = none ∨ ∃ a fresh answer, r.allocation = some a ∧
    answer ≠ .ok true ∧ .reassign a.managerId fresh answer ∈ acc.calls
  custody : out.2.cache.entries.values.Perm (acc.kept ++ s.cache.entries.values)
  indexed : out.2.cache.Indexed
  moves : ∀ call ∈ acc.calls, ∃ m id answer, call = .reassign m id answer
  /-- The rest is given back at once, and the answer is the inner connector's. -/
  calls : out.2.inner.calls = s.inner.calls ++
    (acc.calls ++ if acc.left = [] then [] else [.release acc.left false out.1])
  answer : acc.left = [] → out.1 = .ok ()

/-- The cache plays no part in a release of what must not be kept. -/
theorem release_through (s : CachedConnector (Recorded σ)) (rs : List Resource) :
    let out := s.release C.recorded mint clock rs true
    out.2.cache = s.cache ∧ out.2.inner.calls = s.inner.calls ++ [.release rs true out.1] :=
  ⟨rfl, rfl⟩

theorem release_account (h : s.cache.Indexed) (hs : Supplied mint last s) {rs : List Resource}
    (hlast : s.drawn + rs.length ≤ last) :
    let out := s.release C.recorded mint clock rs false
    ∃ acc : Stays, acc.map Prod.fst = rs ∧ Stores mint clock last acc s
        (s.keepAll C.recorded mint clock rs).2 ∧
      out.2.cache = (s.keepAll C.recorded mint clock rs).2.cache ∧
      out.2.drawn = (s.keepAll C.recorded mint clock rs).2.drawn ∧
      out.2.inner.calls = s.inner.calls ++
        (acc.calls ++ if acc.left = [] then [] else [.release acc.left false out.1]) ∧
      (acc.left = [] → out.1 = .ok ()) := by
  obtain ⟨acc, hrs, hst, hleft⟩ := keepAll_account (C := C) clock h hs hlast
  refine ⟨acc, hrs, hst, ?_⟩
  unfold release
  rw [if_neg Bool.false_ne_true]
  dsimp only
  rw [hleft, ← List.append_assoc, ← hst.calls]
  by_cases hno : acc.left = []
  · rw [if_pos (List.isEmpty_iff.2 hno), if_pos hno, List.append_nil]
    exact ⟨rfl, rfl, rfl, fun _ => rfl⟩
  · rw [if_neg fun he => hno (List.isEmpty_iff.1 he), if_neg hno]
    exact ⟨rfl, rfl, rfl, fun he => absurd he hno⟩

theorem release_return (h : s.cache.Indexed) {rs : List Resource}
    (hrs : (rs.map Resource.id).Nodup) (hs : Supplied mint (s.drawn + rs.length) s) :
    ∃ acc : Stays, Return mint clock rs s (s.release C.recorded mint clock rs false) acc := by
  obtain ⟨acc, hacc, hst, hcache, hdrawn, hcalls, hanswer⟩ :=
    release_account (C := C) clock h hs (Nat.le_refl _)
  subst hacc
  refine ⟨acc, fun r hr => ?_, acc.left_sublist, fun e he => ?_, fun r hr => ?_, ?_, ?_,
    fun c hc => ?_, hcalls, hanswer⟩
  · have hp := (Stays.kept_left_perm clock hst.sound).map Resource.id
    rw [List.map_append, List.map_map] at hp
    rw [show (fun e : CacheEntry => e.released.id) = Resource.id ∘ CacheEntry.released from rfl,
      hp.count_eq]
    exact List.count_eq_one_of_mem hrs (List.mem_map_of_mem hr)
  · obtain ⟨r, hin⟩ := Stays.mem_kept he
    obtain ⟨hr, ha, hon⟩ := hst.sound _ hin
    subst hr
    rw [hdrawn]
    exact ⟨List.mem_map_of_mem hin, ha, hon, hst.fresh _ hin _ rfl,
      List.mem_flatMap.2 ⟨_, hin, List.mem_singleton_self _⟩⟩
  · obtain ⟨f, hin, hf⟩ := Stays.mem_left hr
    have hsound := hst.sound _ hin
    cases f with
    | unallocated => exact .inl hsound
    | declined m fresh answer =>
      obtain ⟨a, ha, rfl⟩ := Option.map_eq_some_iff.1 hsound.1
      exact .inr ⟨a, fresh, answer, ha, hsound.2,
        List.mem_flatMap.2 ⟨_, hin, List.mem_singleton_self _⟩⟩
    | kept e => simp [Stay.isKept] at hf
  · rw [hcache]
    exact hst.perm
  · rw [hcache]
    exact hst.indexed
  · obtain ⟨⟨r, f⟩, -, hx⟩ := List.mem_flatMap.1 hc
    cases f with
    | unallocated => simp [Stay.calls] at hx
    | declined m fresh answer => exact ⟨m, fresh, answer, List.mem_singleton.1 hx⟩
    | kept e => exact ⟨_, _, _, List.mem_singleton.1 hx⟩

/-- Within a call on a cached connector nothing is lost and nothing is there twice, whatever the
inner connector answers: of resources that are asked for, each is served or asked for below, and of
resources that are given back, each is given back below or kept. -/
theorem calls_conserve (h : s.cache.Indexed) {rs : List Resource}
    (hrs : (rs.map Resource.id).Nodup) :
    let through := s.release C.recorded mint clock rs true
    (s.registered = true →
        ∃ acc : Account, Submission C clock rs s (s.reserve C.recorded clock rs) acc) ∧
      (through.2.cache = s.cache ∧
        through.2.inner.calls = s.inner.calls ++ [.release rs true through.1]) ∧
      (Supplied mint (s.drawn + rs.length) s →
        ∃ acc : Stays, Return mint clock rs s (s.release C.recorded mint clock rs false) acc) :=
  ⟨fun hreg => reserve_submission clock h hreg hrs, release_through clock s rs,
    release_return clock h hrs⟩

/-- One ask is a hit and one is left to ask for. That fails, so the hit is given back by the id of
the resource that it had moved to. Then an allocated resource comes back and is kept. -/
theorem calls_conserve_undone :
    let wanted := fun (id : ResourceId) (memory : UInt64) (a : Option Allocation) =>
      (⟨⟨id, ⟨"a"⟩, .must, 1, memory⟩, ⟨2, by decide⟩, ⟨3, by decide⟩, ⟨"queue"⟩, .pending, a⟩ :
        Resource)
    let rs := [wanted ⟨1, by decide⟩ 512 none, wanted ⟨4, by decide⟩ 4096 none]
    let back := [wanted ⟨5, by decide⟩ 512 (some ⟨1, 512, ⟨"a"⟩, ⟨"n"⟩⟩)]
    let mint : Nat → ResourceId := fun n => .ofNat (200 + n)
    let s : CachedConnector (Recorded ScriptedManager) := {
      inner := { state := { registered := true, failReserve := true } }
      cache := (({ policy := .never } : Cache).store (.ofMillis 0) ⟨101, by decide⟩
        (wanted ⟨9, by decide⟩ 1024 (some ⟨1, 1024, ⟨"a"⟩, ⟨"m"⟩⟩))).2
      registered := true }
    let out := s.reserve ScriptedManager.connector.recorded (.ofMillis 1) rs
    (∃ acc, Submission ScriptedManager.connector (.ofMillis 1) rs s out acc) ∧
      out.1.isOk = false ∧
      (out.2.2.inner.calls.flatMap Call.givenBack).map (fun x => x.1.id) = [⟨1, by decide⟩] ∧
      ∃ acc, Return mint (.ofMillis 1) back s
        (s.release ScriptedManager.connector.recorded mint (.ofMillis 1) back false) acc := by
  intro wanted rs back mint s out
  have hs : s.cache.Indexed := (Cache.Indexed.empty .never).store (by decide +kernel) _ _
  have hsupplied : Supplied mint (s.drawn + back.length) s := by
    refine ⟨fun n _ hn => ?_, fun m n _ hm hn => ?_⟩
    · obtain rfl : n = 0 := Nat.lt_one_iff.1 hn
      decide +kernel
    · have hn : n < 1 := hn
      omega
  obtain ⟨hreserve, -, -⟩ := @calls_conserve _ ScriptedManager.connector (.ofMillis 1) s mint hs rs
    (by decide +kernel)
  obtain ⟨-, -, hrelease⟩ :=
    @calls_conserve _ ScriptedManager.connector (.ofMillis 1) s mint hs back (by decide +kernel)
  exact ⟨hreserve rfl, by decide +kernel, by decide +kernel, hrelease hsupplied⟩

end ClusterBroker.CachedConnector
