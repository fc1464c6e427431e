import ClusterBroker.Proofs.Value.Proper
import ClusterBroker.Value.Reading

/-!
# Values in layers

Several values are laid over a base, each over all below it. What is then found at a place, if it
can be read at all, is what the highest of them has there that has anything. Readers for which this
holds tell at most whether an object has one field, and not what it was put together from.
-/
namespace ClusterBroker.Value

/-! ### What is found after laying -/

/-- What is found in a value that is laid over another, by what is found in the two. -/
def lay : Option Value → Option Value → Option Value
  | b, none => b
  | none, some t => some t
  | some b, some t => some (overlay b t)

theorem field?_overlayFields {bs ts : List (String × Value)} (h : (ts.map Prod.fst).Nodup)
    (name : String) :
    field? name (overlayFields bs ts) = lay (field? name bs) (field? name ts) := by
  induction ts generalizing bs with
  | nil => rfl
  | cons f ts ih =>
    obtain ⟨k, v⟩ := f
    obtain ⟨hk, hts⟩ := List.nodup_cons.1 h
    rw [overlayFields, ih hts, field?_setField, field?]
    by_cases heq : k = name
    · subst heq
      have hnone : field? k ts = none := by
        cases hts' : field? k ts with
        | none => rfl
        | some u => exact absurd (List.mem_map_of_mem (mem_of_field? hts')) hk
      rw [if_pos rfl, if_pos rfl, hnone]
      cases field? k bs <;> rfl
    · rw [if_neg heq, if_neg (Ne.symm heq)]

theorem mem_keys_overlayFields {bs ts : List (String × Value)} {k : String} :
    k ∈ (overlayFields bs ts).map Prod.fst ↔ k ∈ bs.map Prod.fst ∨ k ∈ ts.map Prod.fst := by
  induction ts generalizing bs with
  | nil => simp [overlayFields]
  | cons f ts ih =>
    rw [overlayFields, ih, mem_keys_setField, List.map_cons, List.mem_cons, or_assoc, or_left_comm]

/-- Laying takes nothing out of an object. -/
theorem eq_nil_of_overlayFields {bs ts : List (String × Value)} (h : overlayFields bs ts = []) :
    ts = [] := by
  cases ts with
  | nil => rfl
  | cons f ts =>
    have hmem : f.1 ∈ (overlayFields bs (f :: ts)).map Prod.fst :=
      mem_keys_overlayFields.2 (.inr List.mem_cons_self)
    rw [h] at hmem
    exact nomatch hmem

theorem eq_empty_of_overlay {b v : Value} (h : overlay b v = .object []) : v = .object [] := by
  cases v with
  | object fs =>
    cases b with
    | object bs => rw [eq_nil_of_overlayFields (Value.object.inj h)]
    | _ => exact h
  | _ => exact nomatch h

theorem eq_empty_of_lay {b : Option Value} {v : Value} (h : lay b (some v) = some (.object [])) :
    v = .object [] := by
  cases b with
  | none => exact Option.some.inj h
  | some b => exact eq_empty_of_overlay (Option.some.inj h)

/-- An object that leaves one field when it is laid over another has this one. -/
theorem eq_singleton_of_overlayFields {bs ts : List (String × Value)} {k : String} {v : Value}
    (h : overlayFields bs ts = [(k, v)]) (hts : (ts.map Prod.fst).Nodup) (hne : ts ≠ []) :
    ∃ u, ts = [(k, u)] := by
  have hkey {n : String} (hn : n ∈ ts.map Prod.fst) : n = k := by
    have hmem := mem_keys_overlayFields.2 (.inr hn : n ∈ bs.map Prod.fst ∨ _)
    rw [h] at hmem
    exact List.mem_singleton.1 hmem
  match ts, hne with
  | [(n, u)], _ =>
    obtain rfl : n = k := hkey List.mem_cons_self
    exact ⟨u, rfl⟩
  | f :: g :: _, _ =>
    have hfg : f.1 = g.1 := (hkey List.mem_cons_self).trans
      (hkey (List.mem_cons_of_mem _ List.mem_cons_self)).symm
    exact absurd (hfg ▸ List.mem_cons_self) (List.nodup_cons.1 hts).1

/-! ### Places -/

/-- The entry of an object, or of a list that has its entries in an order. -/
def part? (order : List String) (name : String) : Value → Option Value
  | .object fs => field? name fs
  | .array vs => field? name (order.zip vs)
  | _ => none

/-- What may be found at a place, given what is found there below and in the value on top: nothing,
what was there below, what is on top, or this laid over that. -/
inductive LaidOver : Option Value → Option Value → Option Value → Prop
  | gone {b t} : LaidOver b t none
  | kept {b} : LaidOver b none b
  | replaced {b t} : LaidOver b t t
  | merged {b t} : LaidOver (some b) (some t) (some (overlay b t))

theorem LaidOver.eq_none {found : Option Value} (h : LaidOver none none found) : found = none := by
  cases h with
  | gone | kept | replaced => rfl

theorem laidOver_lay (b t : Option Value) : LaidOver b t (lay b t) := by
  cases t with
  | none => exact .kept
  | some t =>
    cases b with
    | none => exact .replaced
    | some b => exact .merged

theorem laidOver_part? (order : List String) (name : String) (b : Value) {t : Value}
    (ht : Proper t) :
    LaidOver (part? order name b) (part? order name t) (part? order name (overlay b t)) := by
  cases t with
  | object ts =>
    cases b with
    | object bs =>
      change LaidOver (field? name bs) (field? name ts) (field? name (overlayFields bs ts))
      rw [field?_overlayFields ht.nodup]
      exact laidOver_lay _ _
    | _ => exact .replaced
  | _ => exact .replaced

theorem LaidOver.part? {below top found : Option Value} (h : LaidOver below top found)
    (htop : ∀ t, top = some t → Proper t) (order : List String) (name : String) :
    LaidOver (below.bind (part? order name)) (top.bind (part? order name))
      (found.bind (part? order name)) := by
  cases h with
  | gone => exact .gone
  | kept => exact .kept
  | replaced => exact .replaced
  | @merged b t => exact laidOver_part? order name b (htop t rfl)

/-- A place in values at which laying works, and at which proper values have proper ones. -/
structure IsPlace (view : Value → Option Value) : Prop where
  laidOver : ∀ b {t}, Proper t → LaidOver (view b) (view t) (view (overlay b t))
  proper : ∀ {t v}, Proper t → view t = some v → Proper v

theorem isPlace_part? (order : List String) (name : String) : IsPlace (part? order name) where
  laidOver b _ ht := laidOver_part? order name b ht
  proper {t v} ht hv := by
    cases t with
    | object fs => exact ht.field? hv
    | array vs => exact ht.items v (List.of_mem_zip (mem_of_field? hv)).2
    | _ => exact nomatch hv

/-- An entry of what is found at a place is at a place too. -/
theorem IsPlace.part? {view : Value → Option Value} (h : IsPlace view) (order : List String)
    (name : String) : IsPlace fun v => (view v).bind (part? order name) where
  laidOver b t ht := (h.laidOver b ht).part? (fun _ => h.proper ht) order name
  proper {t v} ht hv := by
    obtain ⟨u, hu, hv⟩ := Option.bind_eq_some_iff.1 hv
    exact (isPlace_part? order name).proper (h.proper ht hu) hv

/-! ### Reading the highest layer -/

/-- Values laid over a base, the highest first. -/
def overlaid (base : Value) (layers : List Value) : Value :=
  layers.foldr (fun top below => overlay below top) base

theorem overlaid_proper {base : Value} (hbase : Proper base) {layers : List Value}
    (h : ∀ t ∈ layers, Proper t) : Proper (overlaid base layers) := by
  induction layers with
  | nil => exact hbase
  | cons t layers ih =>
    obtain ⟨ht, hlayers⟩ := List.forall_mem_cons.1 h
    exact (ih hlayers).overlay ht

/-- What is given at a place; an empty object gives nothing. -/
def given? : Option Value → Option Value
  | some (.object []) => none
  | found => found

theorem given?_of_ne {v : Value} (h : v ≠ .object []) : given? (some v) = some v := by
  unfold given?
  split
  next heq => exact absurd (Option.some.inj heq) h
  next => rfl

/-- A reader that reads nothing from an empty object, and from a value laid over another only what
it reads from the former. -/
structure Reader.Topmost {α : Type} (r : Reader α) : Prop where
  empty : ∀ a, r (.object []) ≠ .ok a
  top : ∀ {b t a}, t ≠ .object [] → Proper t → Proper (overlay b t) → r (overlay b t) = .ok a →
    r t = .ok a

theorem overlay_empty (b : Value) :
    overlay b (.object []) = b ∨ overlay b (.object []) = .object [] := by
  cases b with
  | object bs => exact .inl rfl
  | _ => exact .inr rfl

/-- What can be read after laying reads as what is given on top, or is what was there below. -/
theorem LaidOver.read {α : Type} {r : Reader α} (hr : Reader.Topmost r) {below top : Option Value}
    {v : Value} {a : α} (h : LaidOver below top (some v)) (htop : ∀ t, top = some t → Proper t)
    (hv : Proper v) (ha : r v = .ok a) :
    (∃ u, given? top = some u ∧ r u = .ok a) ∨ given? top = none ∧ below = some v := by
  cases h with
  | kept => exact .inr ⟨rfl, rfl⟩
  | replaced => exact .inl ⟨v, given?_of_ne fun heq => hr.empty a (heq ▸ ha), ha⟩
  | @merged b t =>
    by_cases hne : t = .object []
    · subst hne
      rcases overlay_empty b with heq | heq
      · exact .inr ⟨rfl, by rw [heq]⟩
      · exact absurd (heq ▸ ha) (hr.empty a)
    · exact .inl ⟨t, given?_of_ne hne, hr.top hne (htop t rfl) hv ha⟩

/-- What is found in layers and can be read reads as what the highest layer gives that gives
anything. The induction is on the layers. -/
theorem read_highest {α : Type} {view : Value → Option Value} (hview : IsPlace view)
    {r : Reader α} (hr : Reader.Topmost r) {base : Value} (hbase : Proper base)
    {layers : List Value} (hlayers : ∀ t ∈ layers, Proper t) {v : Value} {a : α}
    (hv : view (overlaid base layers) = some v) (ha : r v = .ok a) :
    ∃ u, (layers ++ [base]).findSome? (fun t => given? (view t)) = some u ∧ r u = .ok a := by
  induction layers with
  | nil =>
    change view base = some v at hv
    have hne : v ≠ .object [] := fun heq => hr.empty a (heq ▸ ha)
    exact ⟨v, by rw [List.nil_append, List.findSome?_singleton, hv, given?_of_ne hne], ha⟩
  | cons t layers ih =>
    have hproper := hview.proper (overlaid_proper hbase hlayers) hv
    obtain ⟨ht, hlayers⟩ := List.forall_mem_cons.1 hlayers
    have hover := hview.laidOver (overlaid base layers) ht
    rw [show overlay (overlaid base layers) t = overlaid base (t :: layers) from rfl, hv] at hover
    rw [List.cons_append, List.findSome?_cons]
    rcases hover.read hr (fun _ => hview.proper ht) hproper ha with ⟨u, hu, hread⟩ | ⟨hnone, hbelow⟩
    · exact ⟨u, by rw [hu], hread⟩
    · rw [hnone]
      exact ih hlayers hbelow

/-! ### Paths -/

/-- What is found at the end of a path through objects. -/
def at? : List String → Value → Option Value
  | [], v => some v
  | k :: path, .object fs => (field? k fs).bind (at? path)
  | _ :: _, _ => none

theorem at?_ofPath (path : List String) (v : Value) : at? path (ofPath path v) = some v := by
  induction path with
  | nil => rfl
  | cons k path ih =>
    change (field? k [(k, ofPath path v)]).bind (at? path) = some v
    rw [field?, if_pos rfl]
    exact ih

/-- A value that is set at a path is found there, unless it is laid into what was there. -/
theorem at?_overlay_ofPath {v : Value} (hv : ∀ fs, v ≠ .object fs) (path : List String)
    (b : Value) : at? path (overlay b (ofPath path v)) = some v := by
  induction path generalizing b with
  | nil =>
    cases v with
    | object fs => exact absurd rfl (hv fs)
    | _ => rfl
  | cons k path ih =>
    cases b with
    | object bs =>
      change (field? k (overlayFields bs [(k, ofPath path v)])).bind (at? path) = some v
      rw [field?_overlayFields (by simp), field?, if_pos rfl]
      cases field? k bs with
      | none => exact at?_ofPath path v
      | some b => exact ih b
    | _ => exact at?_ofPath (k :: path) v

/-- A value that is set at a path changes nothing at a path that leads elsewhere. -/
theorem at?_overlay_ofPath_of_apart {path other : List String} (hpath : ¬ path <+: other)
    (hother : ¬ other <+: path) {b u : Value} (h : at? path b = some u) (v : Value) :
    at? path (overlay b (ofPath other v)) = some u := by
  induction path generalizing b other with
  | nil => exact absurd (List.nil_prefix) hpath
  | cons k path ih =>
    cases other with
    | nil => exact absurd (List.nil_prefix) hother
    | cons n other =>
      cases b with
      | object bs =>
        obtain ⟨w, hw, hu⟩ := Option.bind_eq_some_iff.1 h
        change (field? k (overlayFields bs [(n, ofPath other v)])).bind (at? path) = some u
        rw [field?_overlayFields (by simp), hw, field?]
        by_cases heq : n = k
        · subst heq
          rw [if_pos rfl]
          exact ih (fun hp => hpath (List.cons_prefix_cons.2 ⟨rfl, hp⟩))
            (fun hp => hother (List.cons_prefix_cons.2 ⟨rfl, hp⟩)) hu
        · rw [if_neg heq]
          exact hu
      | _ => cases h

/-! ### Readers of the highest layer -/

namespace Reader

variable {α : Type}

/-- Only objects are laid into what is below them. -/
theorem Topmost.of_refuses {r : Reader α}
    (h : ∀ fs a, Proper (.object fs) → r (.object fs) ≠ .ok a) : Topmost r where
  empty a := h [] a proper_empty
  top {b t a} _ _ hproper ha := by
    cases t with
    | object ts =>
      cases b with
      | object bs => exact absurd ha (h _ a hproper)
      | _ => exact ha
    | _ => exact ha

theorem topmost_text : Topmost text := .of_refuses fun _ _ _ => nofun

theorem topmost_collectedText : Topmost collectedText := .of_refuses fun _ _ _ => nofun

theorem topmost_bool : Topmost bool := .of_refuses fun _ _ _ => nofun

/-- The least of several things is one of them. -/
theorem least_mem {β : Type} (smaller : β → β → Prop) [DecidableRel smaller] (f : β) (fs : List β) :
    fs.foldl (fun a b => if smaller b a then b else a) f ∈ f :: fs := by
  induction fs generalizing f with
  | nil => exact List.mem_cons_self
  | cons g fs ih =>
    rw [List.foldl_cons]
    split
    next => exact List.mem_cons_of_mem f (ih g)
    next =>
      rcases List.mem_cons.1 (ih f) with heq | h
      · rw [heq]
        exact List.mem_cons_self
      · exact List.mem_cons_of_mem f (List.mem_cons_of_mem g h)

theorem payloadFault?_of_proper {v : Value} (h : Proper v) :
    payloadFault? v = some .invalidType := by
  cases h <;> rfl

/-- A variant that is an object has nothing in it, and no proper value is nothing. -/
theorem topmost_variant (closed : Bool) (parse : String → Option α) :
    Topmost (variant closed parse) := by
  refine .of_refuses fun fs a hproper hread => ?_
  cases fs with
  | nil => exact nomatch hread
  | cons f fs =>
    unfold variant at hread
    dsimp only at hread
    split at hread
    next => exact nomatch hread
    next =>
      have hleast := least_mem (fun a b : String × Value => a.1 < b.1) f fs
      rw [payloadFault?_of_proper (hproper.fields _ hleast)] at hread
      split at hread
      next => exact nomatch hread
      next => exact nomatch hread
      next heq => exact nomatch heq

theorem collectedVariant_object {parse : String → Option α} {fs : List (String × Value)} {a : α}
    (h : Proper (.object fs)) (ha : collectedVariant parse (.object fs) = .ok a) :
    ∃ k, fs = [(k, .object [])] ∧ parse k = some a := by
  unfold collectedVariant at ha
  split at ha
  next heq => exact nomatch heq
  next f heq =>
    obtain rfl := Value.object.inj heq
    have hf := h.fields f List.mem_cons_self
    split at ha
    next => exact nomatch ha
    next hnull =>
      rw [hnull] at hf
      exact nomatch hf
    next b hparse hempty =>
      obtain rfl := Except.ok.inj ha
      exact ⟨f.1, by rw [← hempty], hparse⟩
    next => exact nomatch ha
  next => exact nomatch ha
  next => exact nomatch ha

/-- Among other fields a variant may be an object whose only field has an empty object. Whatever it
is laid over, the field was there already or is the only one. -/
theorem topmost_collectedVariant (parse : String → Option α) :
    Topmost (collectedVariant parse) where
  empty a := nofun
  top {b t a} hne ht hproper ha := by
    cases t with
    | object ts =>
      cases b with
      | object bs =>
        obtain ⟨k, hfields, hparse⟩ := collectedVariant_object hproper ha
        obtain ⟨v, rfl⟩ := eq_singleton_of_overlayFields hfields ht.nodup fun heq =>
          hne (congrArg Value.object heq)
        have hempty :
            field? k (overlayFields bs [(k, v)]) = lay (field? k bs) (field? k [(k, v)]) :=
          field?_overlayFields ht.nodup k
        simp only [hfields, field?, if_true] at hempty
        rw [eq_empty_of_lay hempty.symm]
        simp only [collectedVariant, hparse]
      | _ => exact ha
    | _ => exact ha

end Reader

end ClusterBroker.Value
