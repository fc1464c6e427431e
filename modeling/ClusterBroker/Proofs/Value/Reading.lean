import ClusterBroker.Form
import Mathlib.Data.List.Forall2

/-!
# Readers take what was written, and more

Others may write a value with fields that we do not know, and may leave out fields in which there
is nothing. A reader that does not mind is one that reads a value from its written form, and from
every form that differs from it in this way only, at any depth.
-/
namespace ClusterBroker.Value

/-! ### Results -/

theorem map_eq_ok {ε α β : Type} {x : Except ε α} {f : α → β} {b : β} :
    x.map f = .ok b ↔ ∃ a, x = .ok a ∧ f a = b := by
  cases x <;> simp [Except.map]

theorem bind_eq_ok {ε α β : Type} {x : Except ε α} {f : α → Except ε β} {b : β} :
    (x >>= f) = .ok b ↔ ∃ a, x = .ok a ∧ f a = .ok b := by
  cases x <;> simp [bind, Except.bind]

theorem mapError_eq_ok {ε ε' α : Type} {x : Except ε α} {f : ε → ε'} {a : α} :
    x.mapError f = .ok a ↔ x = .ok a := by
  cases x <;> simp [Except.mapError]

/-! ### Padded values -/

/-- The fields that may be left out if there is nothing in them. -/
def optionalFields : List String := ["allocation", "allocated_on"]

/-- The fields of an object as someone else might write them, in the same order: each is there in a
form that is related to ours, unless it is optional and there is nothing in it, and fields of
these names are added in between. -/
inductive PaddedFields (R : Value → Value → Prop) :
    List String → List (String × Value) → List (String × Value) → Prop
  | nil : PaddedFields R [] [] []
  | keep {added k v w fs gs} : R v w → PaddedFields R added fs gs →
      PaddedFields R added ((k, v) :: fs) ((k, w) :: gs)
  | drop {added k fs gs} : k ∈ optionalFields → PaddedFields R added fs gs →
      PaddedFields R added ((k, .null) :: fs) gs
  | add {added k w fs gs} : PaddedFields R added fs gs →
      PaddedFields R (k :: added) fs ((k, w) :: gs)

/-- A value as someone else might write it: at any depth its objects may have fields added and
optional ones left out. An added field is none that the object has in our form. -/
inductive Padded : Value → Value → Prop
  | same (v : Value) : Padded v v
  | array {vs ws : List Value} : List.Forall₂ Padded vs ws → Padded (.array vs) (.array ws)
  | object {added : List String} {fs gs : List (String × Value)} :
      PaddedFields Padded added fs gs → (∀ k ∈ added, k ∉ fs.map Prod.fst) →
      Padded (.object fs) (.object gs)

theorem PaddedFields.refl (fs : List (String × Value)) : PaddedFields Padded [] fs fs := by
  induction fs with
  | nil => exact .nil
  | cons f fs ih => exact .keep (.same f.2) ih

theorem Padded.of_object {fs : List (String × Value)} {w : Value} (h : Padded (.object fs) w) :
    ∃ added gs, w = .object gs ∧ PaddedFields Padded added fs gs ∧
      ∀ k ∈ added, k ∉ fs.map Prod.fst := by
  cases h with
  | same => exact ⟨[], fs, rfl, .refl fs, List.forall_mem_nil _⟩
  | object h hadded => exact ⟨_, _, rfl, h, hadded⟩

theorem Padded.of_array {vs : List Value} {w : Value} (h : Padded (.array vs) w) :
    ∃ ws, w = .array ws ∧ List.Forall₂ Padded vs ws := by
  cases h with
  | same => exact ⟨vs, rfl, List.forall₂_same.2 fun v _ => .same v⟩
  | array h => exact ⟨_, rfl, h⟩

theorem Padded.ne_null {v w : Value} (h : Padded v w) (hv : v ≠ .null) : w ≠ .null := by
  cases h with
  | same => exact hv
  | array | object => nofun

/-! ### Looking fields up -/

/-- Where a field is looked up, a form of the value is found, or nothing for nothing. -/
def Finds (get : String → Option Value) (name : String) (v : Value) : Prop :=
  (∃ w, get name = some w ∧ Padded v w) ∨ v = .null ∧ get name = none

theorem field?_cons_of_ne {k name : String} (h : k ≠ name) (v : Value)
    (fs : List (String × Value)) : field? name ((k, v) :: fs) = field? name fs := if_neg h

theorem PaddedFields.field?_eq_none {R : Value → Value → Prop} {added : List String}
    {fs gs : List (String × Value)} (h : PaddedFields R added fs gs) {k : String}
    (hk : k ∉ added) (hfs : k ∉ fs.map Prod.fst) : field? k gs = none := by
  induction h with
  | nil => rfl
  | keep _ _ ih =>
    rw [List.map_cons, List.mem_cons, not_or] at hfs
    rw [field?_cons_of_ne (Ne.symm hfs.1), ih hk hfs.2]
  | drop _ _ ih =>
    rw [List.map_cons, List.mem_cons, not_or] at hfs
    exact ih hk hfs.2
  | add _ ih =>
    rw [List.mem_cons, not_or] at hk
    rw [field?_cons_of_ne (Ne.symm hk.1), ih hk.2 hfs]

/-- The fields of an object are found among those that someone else wrote. -/
theorem PaddedFields.finds {added : List String} {fs gs : List (String × Value)}
    (h : PaddedFields Padded added fs gs) (hdistinct : (fs.map Prod.fst).Nodup)
    (hadded : ∀ k ∈ added, k ∉ fs.map Prod.fst) :
    ∀ f ∈ fs, Finds (field? · gs) f.1 f.2 := by
  induction h with
  | nil => exact List.forall_mem_nil _
  | @keep added k v w fs gs hvw hfs ih =>
    rw [List.map_cons, List.nodup_cons] at hdistinct
    refine List.forall_mem_cons.2 ⟨.inl ⟨w, if_pos rfl, hvw⟩, fun f hf => ?_⟩
    have hmem : f.1 ∈ fs.map Prod.fst := List.mem_map_of_mem hf
    have hne : k ≠ f.1 := fun heq => hdistinct.1 (heq ▸ hmem)
    have hfind := ih hdistinct.2 (fun n hn => mt (List.mem_cons_of_mem k) (hadded n hn)) f hf
    rwa [Finds, field?_cons_of_ne hne]
  | @drop added k fs gs _ hfs ih =>
    rw [List.map_cons, List.nodup_cons] at hdistinct
    have hk : k ∉ added := fun hmem => hadded k hmem List.mem_cons_self
    exact List.forall_mem_cons.2 ⟨.inr ⟨rfl, hfs.field?_eq_none hk hdistinct.1⟩,
      ih hdistinct.2 fun n hn => mt (List.mem_cons_of_mem k) (hadded n hn)⟩
  | @add added k w fs gs _ ih =>
    intro f hf
    obtain ⟨hk, hadded⟩ := List.forall_mem_cons.1 hadded
    have hne : k ≠ f.1 := fun heq => hk (heq ▸ List.mem_map_of_mem hf)
    have hfind := ih hdistinct hadded f hf
    rwa [Finds, field?_cons_of_ne hne]

/-! ### Readers -/

/-- The reader reads what the writer wrote, whoever else wrote it in between. -/
structure Reader.Reads {α : Type} (r : Reader α) (write : α → Value) : Prop where
  written : ∀ a, r (write a) = .ok a
  padded : ∀ a w, Padded (write a) w → r w = .ok a
  present : ∀ a, write a ≠ .null

namespace Reader

variable {α β : Type} {r : Reader α} {write : α → Value}

theorem Reads.of_padded (h : ∀ a w, Padded (write a) w → r w = .ok a)
    (hpresent : ∀ a, write a ≠ .null) : Reads r write :=
  ⟨fun a => h a _ (.same _), h, hpresent⟩

/-- A form that is no array and no object can be written in one way only. -/
theorem Reads.of_written (h : ∀ a, r (write a) = .ok a)
    (hplain : ∀ a w, Padded (write a) w → w = write a) (hpresent : ∀ a, write a ≠ .null) :
    Reads r write :=
  ⟨h, fun a w hw => hplain a w hw ▸ h a, hpresent⟩

theorem Reads.of_string {write : α → String} (h : ∀ a, r (.string (write a)) = .ok a) :
    Reads r fun a => .string (write a) :=
  .of_written h (fun _ _ hw => by cases hw; rfl) fun _ => nofun

theorem Reads.of_int {write : α → Int} (h : ∀ a, r (.int (write a)) = .ok a) :
    Reads r fun a => .int (write a) :=
  .of_written h (fun _ _ hw => by cases hw; rfl) fun _ => nofun

/-- A reader of parts reads what is made of them. -/
theorem Reads.map (h : Reads r write) {f : α → β} {g : β → α} (hfg : ∀ b, f (g b) = b) :
    Reads (fun v => (r v).map f) fun b => write (g b) := by
  refine .of_padded (fun b w hw => ?_) fun b => h.present (g b)
  rw [h.padded (g b) w hw]
  exact congrArg Except.ok (hfg b)

theorem text_reads : Reads text .string := .of_string fun _ => rfl

theorem bool_reads : Reads bool .bool :=
  .of_written (fun _ => rfl) (fun _ _ hw => by cases hw; rfl) fun _ => nofun

theorem ofText_reads {parse : String → Option α} {toText : α → String}
    (h : ∀ a, parse (toText a) = some a) : Reads (ofText parse) fun a => .string (toText a) :=
  .of_string fun a => by simp only [ofText, text, h]

theorem collectedText_reads : Reads collectedText .string := .of_string fun _ => rfl

theorem collectedVariant_reads {parse : String → Option α} {toText : α → String}
    (h : ∀ a, parse (toText a) = some a) :
    Reads (collectedVariant parse) fun a => .string (toText a) :=
  .of_string fun a => by simp only [collectedVariant, h]

theorem variant_reads {closed : Bool} {parse : String → Option α} {toText : α → String}
    (h : ∀ a, parse (toText a) = some a) :
    Reads (variant closed parse) fun a => .string (toText a) :=
  .of_string fun a => by simp only [variant, h]

theorem option_of_ne_null {v : Value} (h : v ≠ .null) : option r v = (r v).map some := by
  cases v with
  | null => exact absurd rfl h
  | _ => rfl

theorem natBelow_ok {bound n : Nat} (h : n < bound) : natBelow bound (.int n) = .ok n :=
  if_pos ⟨Int.natCast_nonneg n, h⟩

theorem items_ok {l : List α} {ws : List Value} (h : List.Forall₂ (fun a w => r w = .ok a) l ws)
    (i : Nat) : items r i ws = .ok l := by
  induction h generalizing i with
  | nil => rfl
  | @cons a w l ws ha _ ih =>
    unfold items
    rw [ha, ih]
    rfl

theorem Reads.list (h : Reads r write) : Reads (list r) fun l => .array (l.map write) := by
  refine .of_padded (fun l w hw => ?_) fun _ => nofun
  obtain ⟨ws, rfl, hws⟩ := hw.of_array
  rw [List.forall₂_map_left_iff] at hws
  exact items_ok (hws.imp h.padded) 0

end Reader

/-! ### Records -/

namespace Record

variable {α β : Type} {get : String → Option Value}

theorem combine_eq_ok {f : Except (List Flaw) (α → β)} {x : Except (List Flaw) α} {b : β} :
    combine f x = .ok b ↔ ∃ g a, f = .ok g ∧ x = .ok a ∧ g a = b := by
  cases f <;> cases x <;> simp [combine]

/-- A record with one more field is read if the field is there and reads well. -/
theorem field_build_eq_ok {f : Record (α → β)} {name : String} {r : Reader α} {b : β} :
    (f.field name r).build get = .ok b ↔
      ∃ g a w, f.build get = .ok g ∧ get name = some w ∧ r w = .ok a ∧ g a = b := by
  change combine (f.build get) ((required name r).build get) = .ok b ↔ _
  rw [combine_eq_ok]
  unfold required
  dsimp only
  cases hget : get name with
  | none => simp
  | some w =>
    cases hr : r w <;> simp [hr, Except.mapError]

/-- From the fields that are looked up, the record is built. -/
def Builds (get : String → Option Value) (r : Record α) (a : α) : Prop := r.build get = .ok a

theorem ofFields_of_builds {r : Record α} {fs : List (String × Value)} {a : α}
    (h : Builds (field? · fs) r a) : r.ofFields fs = .ok a := by
  change (r.build (field? · fs)).mapError objectFault = .ok a
  rw [h]
  rfl

theorem Builds.of (a : α) : Builds get (Record.of a) a := rfl

theorem Builds.field {f : Record (α → β)} {g : α → β} (hf : Builds get f g) {r : Reader α}
    {write : α → Value} (hr : Reader.Reads r write) {name : String} {a : α}
    (hname : Finds get name (write a)) : Builds get (f.field name r) (g a) := by
  rcases hname with ⟨w, hget, hw⟩ | ⟨hnull, -⟩
  · exact field_build_eq_ok.2 ⟨g, a, w, hf, hget, hr.padded a w hw, rfl⟩
  · exact absurd hnull (hr.present a)

theorem Builds.optionalField {f : Record (Option α → β)} {g : Option α → β}
    (hf : Builds get f g) {r : Reader α} {write : α → Value} (hr : Reader.Reads r write)
    {name : String} {a : Option α} (hname : Finds get name (optionValue write a)) :
    Builds get (f.optionalField name r) (g a) := by
  change combine (f.build get) ((optional name r).build get) = .ok (g a)
  refine combine_eq_ok.2 ⟨g, a, hf, ?_, rfl⟩
  unfold optional
  dsimp only
  rcases hname with ⟨w, hget, hw⟩ | ⟨hnull, hget⟩
  · rw [hget]
    cases a with
    | none =>
      cases hw
      rfl
    | some a =>
      have hsome : r.option w = (r w).map some :=
        Reader.option_of_ne_null (hw.ne_null (hr.present a))
      dsimp only
      rw [hsome, hr.padded a w hw]
      rfl
  · rw [hget]
    cases a with
    | none => rfl
    | some a => exact absurd hnull (hr.present a)

/-- The record is built from the fields that the writer writes, in whatever form they are found. -/
def Reads (r : Record α) (write : α → Value) : Prop :=
  ∀ a, ∃ fs, write a = .object fs ∧ (fs.map Prod.fst).Nodup ∧
    ∀ get, (∀ f ∈ fs, Finds get f.1 f.2) → Builds get r a

theorem Reads.reader {r : Record α} {write : α → Value} (h : r.Reads write) (closed : Bool) :
    Reader.Reads (r.reader closed) write := by
  refine .of_padded (fun a w hw => ?_) fun a hnull => ?_
  · obtain ⟨fs, hwrite, hdistinct, hbuild⟩ := h a
    rw [hwrite] at hw
    obtain ⟨added, gs, rfl, hgs, hadded⟩ := hw.of_object
    have hfinds := hgs.finds hdistinct hadded
    exact ofFields_of_builds (hbuild _ hfinds)
  · obtain ⟨fs, hwrite, -⟩ := h a
    rw [hwrite] at hnull
    exact nomatch hnull

end Record

end ClusterBroker.Value
