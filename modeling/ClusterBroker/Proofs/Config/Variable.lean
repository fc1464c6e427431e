import ClusterBroker.Config
import ClusterBroker.Proofs.Value.Proper
import ClusterBroker.Proofs.Value.Reading

/-!
# Variables of the environment

Whatever the text of a variable is, its value is proper: a table in braces has each key once, the
last entry of a key counting, and a text that is no value of another form is one as it stands. Which
option a variable sets is told by its name, in which words are joined by one underscore and
sections by two.
-/
namespace ClusterBroker.Config

open Value (Proper map_eq_ok bind_eq_ok)

/-! ### Values -/

namespace Variable

theorem word_proper (cs : List Char) : (word cs).Proper := by
  unfold word
  split
  next => exact .float _
  next =>
    split
    next n _ => exact .int n
    next => exact .string _

/-- Values whose nesting is bounded by `n` are proper. -/
def ValuesProper (n : Nat) : Prop := ∀ {cs r}, value n cs = .ok r → r.1.Proper

def ItemsProper (n : Nat) : Prop := ∀ {cs r}, items n cs = .ok r → ∀ v ∈ r.1, v.Proper

def EntriesProper (n : Nat) : Prop :=
  ∀ {fs cs r}, Proper (.object fs) → entries n fs cs = .ok r → Proper (.object r.1)

theorem valuesProper_succ {n : Nat} (hitems : ItemsProper n) (hentries : EntriesProper n) :
    ValuesProper (n + 1) := by
  intro cs r h
  obtain ⟨found, hfound, rfl⟩ := map_eq_ok.1 h
  split at hfound
  next => exact Except.ok.inj hfound ▸ .bool true
  next => exact Except.ok.inj hfound ▸ .bool false
  next =>
    split at hfound
    next =>
      obtain ⟨es, hes, rfl⟩ := map_eq_ok.1 hfound
      exact hentries Value.proper_empty hes
    next =>
      obtain ⟨vs, hvs, rfl⟩ := map_eq_ok.1 hfound
      exact .array (hitems hvs)
    next =>
      obtain ⟨q, -, rfl⟩ := map_eq_ok.1 hfound
      exact .string _
    next => exact Except.ok.inj hfound ▸ .char _
    next => exact nomatch hfound
    next => exact Except.ok.inj hfound ▸ word_proper _

theorem itemsProper_succ {n : Nat} (hvalue : ValuesProper n) (hitems : ItemsProper n) :
    ItemsProper (n + 1) := by
  intro cs r h
  unfold items at h
  split at h
  next => exact nomatch h
  next => exact Except.ok.inj h ▸ List.forall_mem_nil _
  next heq _ =>
    obtain rfl := Nat.succ.inj heq
    split at h
    next hv =>
      obtain ⟨vs, hvs, rfl⟩ := map_eq_ok.1 h
      exact List.forall_mem_cons.2 ⟨hvalue hv, hitems hvs⟩
    next hv => exact Except.ok.inj h ▸ List.forall_mem_singleton.2 (hvalue hv)
    next => exact nomatch h
    next => exact nomatch h

/-- An entry after its key, and the entries after it. -/
theorem entry_proper {n : Nat} (hvalue : ValuesProper n) (hentries : EntriesProper n)
    {fs : List (String × Value)} (hfs : Proper (.object fs)) {key rest : List Char}
    {r : List (String × Value) × List Char} (h : (do
      let rest ← expect '=' (skipSpaces rest)
      let (v, rest) ← value n rest
      let fs := Value.setField (String.ofList key) v fs
      match rest with
      | ',' :: rest => entries n fs rest
      | '\x7d' :: rest => return (fs, rest)
      | _ => .error .noValue) = Except.ok r) : Proper (.object r.1) := by
  simp only [bind_eq_ok] at h
  obtain ⟨rest', -, ⟨v, more⟩, hv, h⟩ := h
  have hfs' := hfs.setField (hvalue hv) (String.ofList key)
  split at h
  next => exact hentries hfs' h
  next => exact Except.ok.inj h ▸ hfs'
  next => exact nomatch h

theorem entriesProper_succ {n : Nat} (hvalue : ValuesProper n) (hentries : EntriesProper n) :
    EntriesProper (n + 1) := by
  intro fs cs r hfs h
  unfold entries at h
  split at h
  next => exact nomatch h
  next => exact Except.ok.inj h ▸ hfs
  next heq _ =>
    obtain rfl := Nat.succ.inj heq
    dsimp only at h
    split at h
    next =>
      obtain ⟨⟨key, rest⟩, -, h⟩ := bind_eq_ok.1 h
      exact entry_proper hvalue hentries hfs h
    next =>
      split at h
      next => exact nomatch h
      next => exact entry_proper hvalue hentries hfs h

/-- Every value is proper, with what is nested in it. The induction is on what bounds the nesting,
for all three readers at once. -/
theorem value_proper (n : Nat) : ValuesProper n ∧ ItemsProper n ∧ EntriesProper n := by
  induction n with
  | zero => exact ⟨nofun, nofun, fun _ => nofun⟩
  | succ n ih =>
    obtain ⟨hvalue, hitems, hentries⟩ := ih
    exact ⟨valuesProper_succ hitems hentries, itemsProper_succ hvalue hitems,
      entriesProper_succ hvalue hentries⟩

theorem parse_proper {text : String} {v : Value} (h : parse text = some v) : v.Proper := by
  unfold parse at h
  split at h
  next hv => exact Option.some.inj h ▸ (value_proper _).1 hv
  next => cases h
  next => exact Option.some.inj h ▸ .string text

end Variable

/-! ### Names -/

/-- A small letter or a digit. -/
def isLetter (c : Char) : Bool := c.isLower || c.isDigit

/-- A name of an option: words of small letters and digits, joined by single hyphens. -/
def isName : List Char → Bool
  | [] => false
  | [c] => isLetter c
  | c :: '-' :: rest => isLetter c && isName rest
  | c :: rest => isLetter c && isName rest

/-- A name as it is spelled in a variable: in capitals, with underscores for hyphens. -/
def spelled (cs : List Char) : List Char := cs.map fun c => if c = '-' then '_' else c.toUpper

/-- The variable for the option at a path. -/
def variableFor (path : List String) : String :=
  namePrefix ++ String.ofList (['_', '_'].intercalate (path.map fun s => spelled s.toList))

theorem toNat_lt_of_isLetter {c : Char} (h : isLetter c) : c.toNat < 128 := by
  rcases Bool.or_eq_true_iff.1 h with h | h
  · obtain ⟨-, h⟩ := Bool.and_eq_true_iff.1 h
    exact Nat.lt_of_le_of_lt (of_decide_eq_true h : c.val ≤ 'z'.val) (by decide)
  · obtain ⟨-, h⟩ := Bool.and_eq_true_iff.1 h
    exact Nat.lt_of_le_of_lt (of_decide_eq_true h : c.val ≤ '9'.val) (by decide)

theorem letter_laws {c : Char} (h : isLetter c) :
    c ≠ '-' ∧ c.toUpper.toLower = c ∧ c.toUpper ≠ '_' ∧ c.toUpper ≠ '.' ∧
      Text.isBlank c.toUpper = false := by
  have hall : ∀ n : Fin 128, isLetter (Char.ofNat n) = true →
      Char.ofNat n ≠ '-' ∧ (Char.ofNat n).toUpper.toLower = Char.ofNat n ∧
        (Char.ofNat n).toUpper ≠ '_' ∧ (Char.ofNat n).toUpper ≠ '.' ∧
          Text.isBlank (Char.ofNat n).toUpper = false := by decide
  have hc := hall ⟨c.toNat, toNat_lt_of_isLetter h⟩
  rw [Char.ofNat_toNat] at hc
  exact hc h

/-- Characters in front of the first segment. -/
def prepend (cs : List Char) : List (List Char) → List (List Char)
  | s :: more => (cs ++ s) :: more
  | [] => [cs]

theorem segments_go_letter {c : Char} (h : isLetter c) (rest : List Char) :
    segments.go (c.toUpper :: rest) = prepend [c.toUpper] (segments.go rest) := by
  obtain ⟨-, -, hunderscore, hpoint, -⟩ := letter_laws h
  rw [segments.go.eq_def]
  split
  next heq => exact nomatch heq
  next heq => exact absurd (List.cons.inj heq).1 hunderscore
  next heq => exact absurd (List.cons.inj heq).1 hpoint
  next heq =>
    obtain ⟨rfl, rfl⟩ := List.cons.inj heq
    dsimp only
    rw [if_neg hunderscore]
    cases segments.go rest <;> rfl

theorem segments_go_underscore {c : Char} (h : isLetter c) (rest : List Char) :
    segments.go ('_' :: c.toUpper :: rest) = prepend ['-'] (segments.go (c.toUpper :: rest)) := by
  obtain ⟨-, -, hunderscore, -, -⟩ := letter_laws h
  rw [segments.go.eq_def]
  split
  next heq => exact nomatch heq
  next heq => exact absurd (List.cons.inj (List.cons.inj heq).2).1 hunderscore
  next heq => exact absurd (List.cons.inj heq).1 (by decide)
  next heq =>
    obtain ⟨rfl, rfl⟩ := List.cons.inj heq
    dsimp only
    cases segments.go (c.toUpper :: rest) <;> rfl

theorem prepend_prepend (as bs : List Char) (segments : List (List Char)) :
    prepend as (prepend bs segments) = prepend (as ++ bs) segments := by
  cases segments with
  | nil => rfl
  | cons s more => exact congrArg (· :: more) (List.append_assoc as bs s).symm

theorem isName_head {cs : List Char} (h : isName cs) : ∃ c rest, cs = c :: rest ∧ isLetter c := by
  cases cs using isName.fun_cases with
  | case1 => exact nomatch h
  | case2 c => exact ⟨c, [], rfl, h⟩
  | case3 c rest => exact ⟨c, '-' :: rest, rfl, (Bool.and_eq_true_iff.1 h).1⟩
  | case4 c rest hne hhyphen =>
    rw [isName.eq_4 c rest hne hhyphen] at h
    exact ⟨c, rest, rfl, (Bool.and_eq_true_iff.1 h).1⟩

theorem spelled_cons {c : Char} (h : isLetter c) (cs : List Char) :
    spelled (c :: cs) = c.toUpper :: spelled cs := by
  rw [spelled, List.map_cons, if_neg (letter_laws h).1]
  rfl

/-- A spelled name goes in front of the first segment of what follows. The induction is on the words
of the name, letter by letter. -/
theorem segments_go_spelled {cs : List Char} (h : isName cs) (rest : List Char) :
    segments.go (spelled cs ++ rest) = prepend (cs.map Char.toUpper) (segments.go rest) := by
  induction cs using isName.induct with
  | case1 => exact nomatch h
  | case2 c =>
    rw [spelled_cons h]
    exact segments_go_letter h rest
  | case3 c cs ih =>
    obtain ⟨hc, hcs⟩ := Bool.and_eq_true_iff.1 h
    have hrest := ih hcs
    obtain ⟨d, ds, rfl, hd⟩ := isName_head hcs
    rw [spelled_cons hc, List.cons_append, segments_go_letter hc]
    change prepend [c.toUpper] (segments.go ('_' :: (spelled (d :: ds) ++ rest))) = _
    rw [spelled_cons hd, List.cons_append] at hrest ⊢
    rw [segments_go_underscore hd, hrest, prepend_prepend, prepend_prepend]
    rfl
  | case4 c cs hne hhyphen ih =>
    rw [isName.eq_4 c cs hne hhyphen] at h
    obtain ⟨hc, hcs⟩ := Bool.and_eq_true_iff.1 h
    rw [spelled_cons hc, List.cons_append, segments_go_letter hc, ih hcs, prepend_prepend]
    rfl

/-- Spelled names that are joined by two underscores are segments of their own. -/
theorem segments_go_path {path : List (List Char)} (hne : path ≠ []) (h : ∀ cs ∈ path, isName cs) :
    segments.go (['_', '_'].intercalate (path.map spelled)) = path.map (·.map Char.toUpper) := by
  induction path with
  | nil => exact absurd rfl hne
  | cons cs path ih =>
    obtain ⟨hcs, hpath⟩ := List.forall_mem_cons.1 h
    cases path with
    | nil =>
      have hlast := segments_go_spelled hcs []
      rw [List.append_nil] at hlast
      rw [List.map_singleton, List.intercalate_singleton, hlast]
      exact congrArg (· :: []) (List.append_nil _)
    | cons ds path =>
      rw [List.map_cons, List.map_cons, List.intercalate_cons_cons, List.append_assoc,
        segments_go_spelled hcs]
      change prepend _ ([] :: segments.go (['_', '_'].intercalate ((ds :: path).map spelled))) = _
      rw [ih (List.cons_ne_nil _ _) hpath]
      exact congrArg (· :: _) (List.append_nil _)

theorem mem_isName {cs : List Char} (h : isName cs) : ∀ c ∈ cs, c = '-' ∨ isLetter c := by
  induction cs using isName.induct with
  | case1 => exact nomatch h
  | case2 c => exact List.forall_mem_singleton.2 (.inr h)
  | case3 c cs ih =>
    obtain ⟨hc, hcs⟩ := Bool.and_eq_true_iff.1 h
    exact List.forall_mem_cons.2 ⟨.inr hc, List.forall_mem_cons.2 ⟨.inl rfl, ih hcs⟩⟩
  | case4 c cs hne hhyphen ih =>
    rw [isName.eq_4 c cs hne hhyphen] at h
    obtain ⟨hc, hcs⟩ := Bool.and_eq_true_iff.1 h
    exact List.forall_mem_cons.2 ⟨.inr hc, ih hcs⟩

theorem map_toLower_toUpper {cs : List Char} (h : isName cs) :
    (cs.map Char.toUpper).map Char.toLower = cs := by
  rw [List.map_map]
  refine (List.map_congr_left fun c hc => ?_).trans (List.map_id cs)
  rcases mem_isName h c hc with rfl | hletter
  · decide
  · exact (letter_laws hletter).2.1

theorem spelled_not_blank {cs : List Char} (h : isName cs) :
    ∀ c ∈ spelled cs, Text.isBlank c = false := by
  intro c hc
  obtain ⟨d, hd, rfl⟩ := List.mem_map.1 hc
  split
  next => decide
  next hne => exact (letter_laws ((mem_isName h d hd).resolve_left hne)).2.2.2.2

theorem joined_not_blank {path : List (List Char)} (h : ∀ cs ∈ path, isName cs) :
    ∀ c ∈ ['_', '_'].intercalate (path.map spelled), Text.isBlank c = false := by
  induction path with
  | nil => exact List.forall_mem_nil _
  | cons cs path ih =>
    obtain ⟨hcs, hpath⟩ := List.forall_mem_cons.1 h
    cases path with
    | nil =>
      rw [List.map_singleton, List.intercalate_singleton]
      exact spelled_not_blank hcs
    | cons ds path =>
      rw [List.map_cons, List.map_cons, List.intercalate_cons_cons]
      have hbetween : ∀ c ∈ ['_', '_'], Text.isBlank c = false := by simp; decide
      exact List.forall_mem_append.2
        ⟨List.forall_mem_append.2 ⟨spelled_not_blank hcs, hbetween⟩, ih hpath⟩

theorem trim_of_not_blank {cs : List Char} (h : ∀ c ∈ cs, Text.isBlank c = false) :
    Text.trim cs = cs := by
  have hdrop {l : List Char} (hl : ∀ c ∈ l, Text.isBlank c = false) :
      l.dropWhile Text.isBlank = l := by
    cases l with
    | nil => rfl
    | cons c l =>
      exact List.dropWhile_cons_of_neg (by rw [hl c List.mem_cons_self]; decide)
  have hreverse : ∀ c ∈ cs.reverse, Text.isBlank c = false := fun c hc =>
    h c (List.mem_reverse.1 hc)
  rw [Text.trim, hdrop h, hdrop hreverse, List.reverse_reverse]

theorem segments_joined {path : List (List Char)} (hne : path ≠ []) (h : ∀ cs ∈ path, isName cs) :
    segments (['_', '_'].intercalate (path.map spelled)) = path := by
  rw [segments, segments_go_path hne h, List.map_map]
  exact (List.map_congr_left fun cs hcs => map_toLower_toUpper (h cs hcs)).trans (List.map_id path)

theorem toList_variableFor (path : List String) : (variableFor path).toList =
    namePrefix.toList ++ ['_', '_'].intercalate ((path.map String.toList).map spelled) := by
  rw [variableFor, String.toList_append, String.toList_ofList, List.map_map]
  rfl

/-- The variable that is spelled for a path names the option at that path. -/
theorem path?_variableFor {path : List String} (hne : path ≠ [])
    (h : ∀ s ∈ path, isName s.toList) : path? (variableFor path) = some path := by
  have hnames : ∀ cs ∈ path.map String.toList, isName cs := List.forall_mem_map.2 h
  have hjoined := joined_not_blank hnames
  have hstart : ∀ c ∈ namePrefix.toList, Text.isBlank c = false :=
    fun c hc => by
      have hall : namePrefix.toList.all (!Text.isBlank ·) = true := by decide
      simpa using List.all_eq_true.1 hall c hc
  have hsegments := segments_joined (mt List.map_eq_nil_iff.1 hne) hnames
  have hfilled : (path.map String.toList).any List.isEmpty = false := by
    refine List.any_eq_false.2 fun cs hcs => ?_
    obtain ⟨c, rest, rfl, -⟩ := isName_head (hnames cs hcs)
    exact Bool.false_ne_true
  unfold path?
  rw [toList_variableFor, trim_of_not_blank (List.forall_mem_append.2 ⟨hstart, hjoined⟩)]
  dsimp only
  rw [← String.length_toList, List.take_left, List.drop_left, trim_of_not_blank hjoined, hsegments,
    hfilled, if_pos (by simp [sameName])]
  simp [List.map_map]

example : variableFor ["anti-deadlock", "backoff-percent"] =
    "CORRAL_ANTI_DEADLOCK__BACKOFF_PERCENT" := by decide

end ClusterBroker.Config
