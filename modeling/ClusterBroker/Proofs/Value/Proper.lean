import ClusterBroker.Value.Envelope

/-!
# Proper values

A value is proper if no object in it has two fields of one name and nothing in it is null. What a
document or a variable of the environment describes is proper, and proper values stay so when they
are put together.
-/
namespace ClusterBroker.Value

/-- A value without null whose objects have their fields once, at any depth. -/
inductive Proper : Value → Prop
  | bool (b : Bool) : Proper (.bool b)
  | int (n : Int) : Proper (.int n)
  | float (text : String) : Proper (.float text)
  | char (c : Char) : Proper (.char c)
  | string (s : String) : Proper (.string s)
  | array {vs : List Value} : (∀ v ∈ vs, Proper v) → Proper (.array vs)
  | object {fs : List (String × Value)} : (fs.map Prod.fst).Nodup → (∀ f ∈ fs, Proper f.2) →
      Proper (.object fs)

theorem Proper.items {vs : List Value} (h : Proper (.array vs)) : ∀ v ∈ vs, Proper v := by
  cases h with
  | array h => exact h

theorem Proper.nodup {fs : List (String × Value)} (h : Proper (.object fs)) :
    (fs.map Prod.fst).Nodup := by
  cases h with
  | object h _ => exact h

theorem Proper.fields {fs : List (String × Value)} (h : Proper (.object fs)) :
    ∀ f ∈ fs, Proper f.2 := by
  cases h with
  | object _ h => exact h

theorem proper_empty : Proper (.object []) := .object List.nodup_nil (List.forall_mem_nil _)

/-! ### Fields -/

theorem mem_of_field? {name : String} {v : Value} {fs : List (String × Value)}
    (h : field? name fs = some v) : (name, v) ∈ fs := by
  induction fs with
  | nil => exact nomatch h
  | cons f fs ih =>
    obtain ⟨k, u⟩ := f
    unfold field? at h
    split at h
    next heq =>
      obtain rfl := heq
      obtain rfl := Option.some.inj h
      exact List.mem_cons_self
    next => exact List.mem_cons_of_mem _ (ih h)

theorem Proper.field? {fs : List (String × Value)} (h : Proper (.object fs)) {name : String}
    {v : Value} (hv : Value.field? name fs = some v) : Proper v := h.fields _ (mem_of_field? hv)

theorem mem_setField {name : String} {v : Value} {fs : List (String × Value)} {f : String × Value}
    (h : f ∈ setField name v fs) : f = (name, v) ∨ f ∈ fs := by
  induction fs with
  | nil => exact .inl (List.mem_singleton.1 h)
  | cons g fs ih =>
    obtain ⟨k, u⟩ := g
    unfold setField at h
    split at h
    next heq =>
      obtain rfl := heq
      exact (List.mem_cons.1 h).imp_right (List.mem_cons_of_mem _)
    next =>
      rcases List.mem_cons.1 h with rfl | h
      · exact .inr List.mem_cons_self
      · exact (ih h).imp_right (List.mem_cons_of_mem _)

theorem mem_keys_setField {name k : String} {v : Value} {fs : List (String × Value)} :
    k ∈ (setField name v fs).map Prod.fst ↔ k = name ∨ k ∈ fs.map Prod.fst := by
  induction fs with
  | nil => simp [setField]
  | cons g fs ih =>
    unfold setField
    split
    next heq => simp [heq]
    next => simp only [List.map_cons, List.mem_cons, ih, or_left_comm]

theorem nodup_setField {name : String} {v : Value} {fs : List (String × Value)}
    (h : (fs.map Prod.fst).Nodup) : ((setField name v fs).map Prod.fst).Nodup := by
  induction fs with
  | nil => simp [setField]
  | cons g fs ih =>
    rw [List.map_cons, List.nodup_cons] at h
    unfold setField
    split
    next heq => exact List.nodup_cons.2 h
    next hne =>
      refine List.nodup_cons.2 ⟨fun hmem => ?_, ih h.2⟩
      exact (mem_keys_setField.1 hmem).elim hne h.1

theorem Proper.setField {fs : List (String × Value)} (h : Proper (.object fs)) {v : Value}
    (hv : Proper v) (name : String) : Proper (.object (setField name v fs)) := by
  refine .object (nodup_setField h.nodup) fun f hf => ?_
  rcases mem_setField hf with rfl | hf
  · exact hv
  · exact h.fields _ hf

theorem Proper.filter {fs : List (String × Value)} (h : Proper (.object fs))
    (p : String × Value → Bool) : Proper (.object (fs.filter p)) :=
  .object (h.nodup.sublist (List.filter_sublist.map _))
    fun _ hf => h.fields _ (List.mem_filter.1 hf).1

theorem Proper.ofPath {v : Value} (h : Proper v) (path : List String) : Proper (ofPath path v) := by
  induction path with
  | nil => exact h
  | cons k path ih =>
    refine .object (by simp) fun f hf => ?_
    obtain rfl := List.mem_singleton.1 hf
    exact ih

/-! ### Values laid over values -/

mutual

theorem Proper.overlay {base : Value} (hbase : Proper base) :
    ∀ {top : Value}, Proper top → Proper (overlay base top)
  | .object fs, h => by
    unfold Value.overlay
    split
    next bs => exact hbase.overlayFields fs h.nodup h.fields
    next => exact h
  | .null, h | .bool _, h | .int _, h | .float _, h | .char _, h | .string _, h | .array _, h => h

theorem Proper.overlayFields {bs : List (String × Value)} (hbs : Proper (.object bs)) :
    ∀ fs : List (String × Value), (fs.map Prod.fst).Nodup → (∀ f ∈ fs, Proper f.2) →
      Proper (.object (overlayFields bs fs))
  | [], _, _ => hbs
  | (k, v) :: rest, hnodup, hfs => by
    obtain ⟨hv, hrest⟩ := List.forall_mem_cons.1 hfs
    unfold Value.overlayFields
    refine Proper.overlayFields (hbs.setField ?_ k) rest (List.nodup_cons.1 hnodup).2 hrest
    split
    next b hb => exact (hbs.field? hb).overlay hv
    next => exact hv

end

/-! ### Envelopes -/

namespace Envelope

theorem openItems_cons {e : Envelope} {v : Value} {vs ws : List Value}
    (h : e.openItems (v :: vs) = some ws) :
    ∃ w us, e.openAll v = some w ∧ e.openItems vs = some us ∧ w :: us = ws := by
  simpa [openItems, Option.bind_eq_some_iff] using h

theorem openFields_cons {e : Envelope} {k : String} {v : Value} {fs gs : List (String × Value)}
    (h : e.openFields ((k, v) :: fs) = some gs) :
    ∃ w us, e.openAll v = some w ∧ e.openFields fs = some us ∧ (k, w) :: us = gs := by
  simpa [openFields, Option.bind_eq_some_iff] using h

theorem openFields_keys {e : Envelope} {fs gs : List (String × Value)}
    (h : e.openFields fs = some gs) : gs.map Prod.fst = fs.map Prod.fst := by
  induction fs generalizing gs with
  | nil =>
    obtain rfl := Option.some.inj h
    rfl
  | cons f fs ih =>
    obtain ⟨w, us, -, hus, rfl⟩ := openFields_cons h
    rw [List.map_cons, List.map_cons, ih hus]

mutual

theorem openAll_proper (e : Envelope) : ∀ {v w : Value}, Proper v → e.openAll v = some w → Proper w
  | .array vs, w, hv, h => by
    obtain ⟨ws, hws, rfl⟩ := Option.map_eq_some_iff.1 h
    exact .array (openItems_proper e hv.items hws)
  | .object fs, w, hv, h => by
    unfold openAll at h
    split at h
    next =>
      obtain ⟨gs, hgs, rfl⟩ := Option.map_eq_some_iff.1 h
      have hproper : Proper (.object gs) :=
        .object (openFields_keys hgs ▸ hv.nodup) (openFields_proper e hv.fields hgs)
      cases hvalue : Value.field? e.value gs with
      | none => exact hproper.filter _
      | some u => exact hproper.field? hvalue
    next => exact nomatch h
  | .null, _, hv, h | .bool _, _, hv, h | .int _, _, hv, h | .float _, _, hv, h | .char _, _, hv, h
  | .string _, _, hv, h => Option.some.inj h ▸ hv

theorem openItems_proper (e : Envelope) : ∀ {vs ws : List Value}, (∀ v ∈ vs, Proper v) →
    e.openItems vs = some ws → ∀ w ∈ ws, Proper w
  | [], ws, _, h => by
    obtain rfl := Option.some.inj h
    exact List.forall_mem_nil _
  | v :: vs, ws, hvs, h => by
    obtain ⟨hv, hvs⟩ := List.forall_mem_cons.1 hvs
    obtain ⟨w, us, hw, hus, rfl⟩ := openItems_cons h
    exact List.forall_mem_cons.2 ⟨openAll_proper e hv hw, openItems_proper e hvs hus⟩

theorem openFields_proper (e : Envelope) : ∀ {fs gs : List (String × Value)},
    (∀ f ∈ fs, Proper f.2) → e.openFields fs = some gs → ∀ g ∈ gs, Proper g.2
  | [], gs, _, h => by
    obtain rfl := Option.some.inj h
    exact List.forall_mem_nil _
  | (k, v) :: fs, gs, hfs, h => by
    obtain ⟨hv, hfs⟩ := List.forall_mem_cons.1 hfs
    obtain ⟨w, us, hw, hus, rfl⟩ := openFields_cons h
    exact List.forall_mem_cons.2 ⟨openAll_proper e hv hw, openFields_proper e hfs hus⟩

end

/-- The fields that a document's fields become are those of a proper object. -/
theorem openFields_proper_object {e : Envelope} {fs gs : List (String × Value)}
    (hfs : Proper (.object fs)) (h : e.openFields fs = some gs) : Proper (.object gs) :=
  .object (openFields_keys h ▸ hfs.nodup) (openFields_proper e hfs.fields h)

end Envelope

end ClusterBroker.Value
