import ClusterBroker.Span.Text

/-!
# Spans are read as they are written

Every span is read from its written form. The form is a list of parts, each a count and the spelling
of a unit; reading adds up the parts one after the other, and in what is written neither the seconds
nor the nanoseconds ever become too many.
-/
namespace ClusterBroker.Span

/-! ### Parts -/

/-- One amount as it is written: how many, of which unit, and how the unit is spelled. -/
structure Part where
  count : Nat
  unit : SpanUnit
  spelling : String

def Part.text (p : Part) : String := toString p.count ++ p.spelling

/-- The spelling is one of the unit's, and nothing in it ends the unit's name. -/
structure SpanUnit.Spells (unit : SpanUnit) (spelling : String) : Prop where
  unit : SpanUnit.ofSpelling? spelling = some unit
  spelled : spelling.toList ≠ []
  letters : ∀ c ∈ spelling.toList, isUnitChar c = true ∧ c.isDigit = false ∧ Text.isBlank c = false

def Part.Legible (p : Part) : Prop := p.unit.Spells p.spelling

/-- The part that an amount is written as, none if it is nothing. -/
def part (n : Nat) (unit : SpanUnit) (spelling : String) (plural : Bool) : List Part :=
  if n = 0 then [] else [⟨n, unit, spelling ++ if plural && n > 1 then "s" else ""⟩]

theorem map_text_part (n : Nat) (unit : SpanUnit) (spelling : String) (plural : Bool) :
    (part n unit spelling plural).map Part.text = amount n spelling plural := by
  unfold amount part
  split
  next => rfl
  next => simp [Part.text, String.append_assoc]

/-- The seconds of parts and their nanoseconds. -/
def total : List Part → Nat × Nat
  | [] => (0, 0)
  | p :: ps => (p.count * p.unit.size.1 + (total ps).1, p.count * p.unit.size.2 + (total ps).2)

theorem total_append (ps qs : List Part) :
    total (ps ++ qs) = ((total ps).1 + (total qs).1, (total ps).2 + (total qs).2) := by
  induction ps with
  | nil => simp [total]
  | cons p ps ih => simp only [List.cons_append, total, ih, Nat.add_assoc]

theorem total_part (n : Nat) (unit : SpanUnit) (spelling : String) (plural : Bool) :
    total (part n unit spelling plural) = (n * unit.size.1, n * unit.size.2) := by
  unfold part
  split
  next h => simp [total, h]
  next => simp [total]

/-! ### Reading one part -/

theorem word_of_lt {n : Nat} (h : n < wordRange) : word n = .ok n := if_pos h

theorem le_ofDigitChars (cs : List Char) (n : Nat) : n ≤ Nat.ofDigitChars 10 cs n := by
  induction cs generalizing n with
  | nil => exact Nat.le_refl n
  | cons c cs ih =>
    rw [Nat.ofDigitChars_cons]
    exact Nat.le_trans (by omega) (ih _)

/-- Digits are read as the number that they denote. -/
theorem readFrom_digits {cs : List Char} (hcs : ∀ c ∈ cs, c.isDigit = true) (read : Bool)
    (sum : Sum) (rest : List Char) (n pos : Nat) (h : Nat.ofDigitChars 10 cs n < wordRange) :
    ∃ pos', readFrom read sum (.digits n) pos (cs ++ rest) =
      readFrom read sum (.digits (Nat.ofDigitChars 10 cs n)) pos' rest := by
  induction cs generalizing n pos with
  | nil => exact ⟨pos, rfl⟩
  | cons c cs ih =>
    obtain ⟨hc, hcs⟩ := List.forall_mem_cons.1 hcs
    rw [Nat.ofDigitChars_cons] at h ⊢
    have hnext : n * 10 + digitValue c = 10 * n + (c.toNat - '0'.toNat) := by
      unfold digitValue
      omega
    have hword : word (n * 10 + digitValue c) = .ok (10 * n + (c.toNat - '0'.toNat)) := by
      rw [hnext]
      exact word_of_lt (Nat.lt_of_le_of_lt (le_ofDigitChars cs _) h)
    obtain ⟨pos', hread⟩ := ih hcs _ (pos + c.utf8Size) h
    refine ⟨pos', ?_⟩
    rw [List.cons_append, readFrom, if_pos hc, hword]
    exact hread

/-- The letters of a unit are read as its spelling. -/
theorem readFrom_unit {cs : List Char}
    (hcs : ∀ c ∈ cs, isUnitChar c = true ∧ c.isDigit = false ∧ Text.isBlank c = false) (read : Bool)
    (sum : Sum) (n : Nat) (f : Option Fraction) (rest u : List Char) (pos : Nat) :
    ∃ pos', readFrom read sum (.unit n f u) pos (cs ++ rest) =
      readFrom read sum (.unit n f (u ++ cs)) pos' rest := by
  induction cs generalizing u pos with
  | nil => exact ⟨pos, by rw [List.append_nil]; rfl⟩
  | cons c cs ih =>
    obtain ⟨⟨hunit, hdigit, hblank⟩, hcs⟩ := List.forall_mem_cons.1 hcs
    obtain ⟨pos', hread⟩ := ih hcs (u ++ [c]) (pos + c.utf8Size)
    refine ⟨pos', ?_⟩
    rw [List.cons_append, readFrom, if_neg (by simp [hdigit]), if_neg (by simp [hblank]),
      if_pos hunit, hread, List.append_assoc]
    rfl

/-- A part is read up to the end of its unit. -/
theorem readFrom_part {p : Part} (hp : p.Legible) (hcount : p.count < wordRange) (read : Bool)
    (sum : Sum) (rest : List Char) (o pos : Nat) :
    ∃ pos', readFrom read sum (.start o) pos (p.text.toList ++ rest) =
      readFrom read sum (.unit p.count none p.spelling.toList) pos' rest := by
  have htext : p.text.toList = Nat.toDigits 10 p.count ++ p.spelling.toList := by
    rw [Part.text, String.toList_append, Nat.toString_eq_repr, Nat.toList_repr]
  have hdigits : ∀ c ∈ Nat.toDigits 10 p.count, c.isDigit = true :=
    fun c => Nat.isDigit_of_mem_toDigits (by decide) (by decide)
  have hvalue : Nat.ofDigitChars 10 (Nat.toDigits 10 p.count) 0 = p.count :=
    Nat.ofDigitChars_ten_toDigits
  obtain ⟨c, cs, hcs⟩ := List.exists_cons_of_ne_nil (Nat.toDigits_ne_nil (n := p.count) (b := 10))
  obtain ⟨u, us, hus⟩ := List.exists_cons_of_ne_nil hp.spelled
  obtain ⟨⟨hunit, hudigit, hublank⟩, hletters⟩ := List.forall_mem_cons.1 (hus ▸ hp.letters)
  rw [hcs] at hdigits hvalue
  obtain ⟨hc, hcs'⟩ := List.forall_mem_cons.1 hdigits
  rw [Nat.ofDigitChars_cons, Nat.mul_zero, Nat.zero_add] at hvalue
  obtain ⟨pos₁, hcount'⟩ := readFrom_digits hcs' read sum (u :: us ++ rest) (digitValue c)
    (pos + c.utf8Size) (Nat.lt_of_le_of_lt (Nat.le_of_eq hvalue) hcount)
  obtain ⟨pos₂, hspelling⟩ := readFrom_unit hletters read sum p.count none rest [u]
    (pos₁ + u.utf8Size)
  refine ⟨pos₂, ?_⟩
  rw [htext, hcs, hus, List.append_assoc, List.cons_append, readFrom, if_pos hc, hcount',
    show Nat.ofDigitChars 10 cs (digitValue c) = p.count from hvalue, List.cons_append, readFrom,
    if_neg (by simp [hudigit]), if_neg (by simp [hublank]), if_pos hunit, hspelling]
  rfl

/-! ### Adding parts up -/

/-- While neither fits too closely, seconds and nanoseconds are added apart. -/
theorem Sum.add_eq {s : Sum} {secs nanos : Nat} (hs : s.secs + secs < wordRange)
    (hn : s.nanos + nanos < 1000000000) :
    s.add secs nanos = .ok ⟨s.secs + secs, s.nanos + nanos⟩ := by
  have hword : word (s.nanos + nanos) = .ok (s.nanos + nanos) :=
    word_of_lt (by unfold wordRange; omega)
  unfold Sum.add
  rw [hword, word_of_lt hs]
  simp only [bind, Except.bind, pure, Except.pure]
  rw [if_neg (by omega), if_pos hn]

/-- All parts after one another, added to a sum. -/
def addParts (s : Sum) : List Part → Except Fault Sum
  | [] => .ok s
  | p :: ps => do addParts (← s.addAmount p.count none p.spelling) ps

theorem addAmount_eq {p : Part} (hp : p.Legible) {s : Sum}
    (hs : s.secs + p.count * p.unit.size.1 < wordRange)
    (hn : s.nanos + p.count * p.unit.size.2 < 1000000000) :
    s.addAmount p.count none p.spelling =
      .ok ⟨s.secs + p.count * p.unit.size.1, s.nanos + p.count * p.unit.size.2⟩ := by
  have hsecs : word (p.count * p.unit.size.1) = .ok _ := word_of_lt (by omega)
  have hnanos : word (p.count * p.unit.size.2) = .ok _ := word_of_lt (by unfold wordRange; omega)
  unfold Sum.addAmount
  rw [hp.unit]
  dsimp only
  rw [hsecs, hnanos]
  simp only [bind, Except.bind, pure, Except.pure]
  rw [Sum.add_eq hs hn]

theorem addParts_eq {ps : List Part} (hps : ∀ p ∈ ps, p.Legible) {s : Sum}
    (hs : s.secs + (total ps).1 < wordRange) (hn : s.nanos + (total ps).2 < 1000000000) :
    addParts s ps = .ok ⟨s.secs + (total ps).1, s.nanos + (total ps).2⟩ := by
  induction ps generalizing s with
  | nil => rfl
  | cons p ps ih =>
    obtain ⟨hp, hps⟩ := List.forall_mem_cons.1 hps
    simp only [total] at hs hn ⊢
    rw [addParts, addAmount_eq hp (by omega) (by omega)]
    simp only [bind, Except.bind]
    rw [ih hps (by dsimp only; omega) (by dsimp only; omega)]
    simp only [Nat.add_assoc]

/-- Parts with blanks between them are read by adding them up. -/
theorem readFrom_parts {p : Part} {ps : List Part} (hps : ∀ q ∈ p :: ps, q.Legible)
    (hcount : ∀ q ∈ p :: ps, q.count < wordRange) (read : Bool) (sum : Sum) (o pos : Nat) :
    readFrom read sum (.start o) pos
      (String.intercalate " " ((p :: ps).map Part.text)).toList = addParts sum (p :: ps) := by
  induction ps generalizing p read sum o pos with
  | nil =>
    obtain ⟨pos', hread⟩ := readFrom_part (hps p List.mem_cons_self) (hcount p List.mem_cons_self)
      read sum [] o pos
    rw [List.append_nil] at hread
    rw [List.map_singleton, String.intercalate_singleton, hread, readFrom, String.ofList_toList,
      addParts]
    cases sum.addAmount p.count none p.spelling <;> rfl
  | cons q ps ih =>
    obtain ⟨hp, hps⟩ := List.forall_mem_cons.1 hps
    obtain ⟨hpcount, hcount⟩ := List.forall_mem_cons.1 hcount
    obtain ⟨pos', hread⟩ := readFrom_part hp hpcount read sum
      (' ' :: (String.intercalate " " ((q :: ps).map Part.text)).toList) o pos
    have htext : (String.intercalate " " ((p :: q :: ps).map Part.text)).toList =
        p.text.toList ++ ' ' :: (String.intercalate " " ((q :: ps).map Part.text)).toList := by
      rw [List.map_cons, List.map_cons, String.intercalate_cons_cons, String.toList_append,
        String.toList_append, List.append_assoc]
      rfl
    have hdigit : ¬ (' ' : Char).isDigit = true := by decide
    have hblank : Text.isBlank ' ' = true := by decide
    rw [htext, hread, readFrom, if_neg hdigit, if_pos hblank, String.ofList_toList, addParts]
    cases sum.addAmount p.count none p.spelling with
    | error f => rfl
    | ok sum' => exact ih hps hcount true sum' _ _

/-! ### What is written -/

/-- The parts of a span. -/
def parts (d : Span) : List Part :=
  let secs := d.nanos / 1000000000
  let nanos := d.nanos % 1000000000
  let inYear := secs % 31557600
  let inMonth := inYear % 2630016
  let inDay := inMonth % 86400
  part (secs / 31557600) .year "year" true ++ part (inYear / 2630016) .month "month" true ++
    part (inMonth / 86400) .day "day" true ++ part (inDay / 3600) .hour "h" false ++
    part (inDay % 3600 / 60) .minute "m" false ++ part (inDay % 60) .second "s" false ++
    part (nanos / 1000000) .millisecond "ms" false ++
    part (nanos / 1000 % 1000) .microsecond "us" false ++ part (nanos % 1000) .nanosecond "ns" false

theorem map_text_parts (d : Span) : d.parts.map Part.text = d.amounts := by
  unfold amounts parts
  simp only [List.map_append, map_text_part]

/-- Nothing of a span is lost in its parts. -/
theorem total_parts (d : Span) :
    total d.parts = (d.nanos / 1000000000, d.nanos % 1000000000) := by
  unfold parts
  simp only [total_append, total_part, SpanUnit.size, Prod.mk.injEq]
  omega

theorem legible_of_mem_part {n : Nat} {unit : SpanUnit} {spelling : String} {plural : Bool}
    (h : ∀ many, unit.Spells (spelling ++ if plural && many then "s" else "")) {p : Part}
    (hp : p ∈ part n unit spelling plural) : p.Legible := by
  unfold part at hp
  split at hp
  next => exact nomatch hp
  next =>
    obtain rfl := List.mem_singleton.1 hp
    exact h _

theorem spells_of_decide {unit : SpanUnit} {spelling : String}
    (h : SpanUnit.ofSpelling? spelling = some unit ∧ spelling.toList ≠ [] ∧
      spelling.toList.all (fun c => isUnitChar c && !c.isDigit && !Text.isBlank c) = true) :
    unit.Spells spelling := by
  obtain ⟨hunit, hne, hall⟩ := h
  refine ⟨hunit, hne, fun c hc => ?_⟩
  have hc := List.all_eq_true.1 hall c hc
  simpa [and_assoc] using hc

theorem legible_of_mem_parts {d : Span} {p : Part} (h : p ∈ d.parts) : p.Legible := by
  unfold parts at h
  simp only [List.mem_append] at h
  rcases h with ((((((((h | h) | h) | h) | h) | h) | h) | h) | h) <;>
    refine legible_of_mem_part (fun many => spells_of_decide ?_) h <;> revert many <;> decide

theorem le_total {ps : List Part} {p : Part} (h : p ∈ ps) :
    p.count * p.unit.size.1 ≤ (total ps).1 ∧ p.count * p.unit.size.2 ≤ (total ps).2 := by
  induction ps with
  | nil => exact nomatch h
  | cons q ps ih =>
    simp only [total]
    rcases List.mem_cons.1 h with rfl | h
    · omega
    · have := ih h
      omega

theorem count_lt {ps : List Part} (hs : (total ps).1 < wordRange) (hn : (total ps).2 < 1000000000)
    {p : Part} (h : p ∈ ps) : p.count < wordRange := by
  have hle := le_total h
  unfold wordRange at hs ⊢
  generalize p.unit = unit at hle
  cases unit <;> simp only [SpanUnit.size] at hle <;> omega

/-- What is written has at least one part, also for no time at all. -/
theorem toText_eq (d : Span) : ∃ p ps, d.toText = String.intercalate " " ((p :: ps).map Part.text) ∧
    (∀ q ∈ p :: ps, q.Legible) ∧ total (p :: ps) = total d.parts := by
  unfold toText
  rw [← map_text_parts]
  have hlegible : ∀ q ∈ d.parts, q.Legible := fun q => legible_of_mem_parts
  generalize d.parts = written at hlegible
  cases written with
  | nil =>
    refine ⟨⟨0, .second, "s"⟩, [], by decide, List.forall_mem_singleton.2 ?_, rfl⟩
    exact spells_of_decide (by decide)
  | cons p ps => exact ⟨p, ps, rfl, hlegible, rfl⟩

/-- A text with a unit in it is no lone digit. -/
theorem intercalate_ne_zero {p : Part} (hp : p.Legible) (ps : List Part) :
    String.intercalate " " ((p :: ps).map Part.text) ≠ "0" := by
  intro h
  obtain ⟨c, cs, hcs⟩ := List.exists_cons_of_ne_nil hp.spelled
  have hc : c ∈ p.spelling.toList := hcs ▸ List.mem_cons_self
  have htext : c ∈ (String.intercalate " " ((p :: ps).map Part.text)).toList := by
    have hpart : c ∈ p.text.toList := by
      rw [Part.text, String.toList_append]
      exact List.mem_append_right _ hc
    cases ps with
    | nil => exact hpart
    | cons q ps =>
      rw [List.map_cons, List.map_cons, String.intercalate_cons_cons, String.append_assoc,
        String.toList_append]
      exact List.mem_append_left _ hpart
  rw [h] at htext
  have hdigit : c.isDigit = true := by
    obtain rfl := List.mem_singleton.1 htext
    decide
  rw [(hp.letters c hc).2.1] at hdigit
  exact Bool.noConfusion hdigit

/-- A span is read from its written form. -/
theorem parse_toText (d : Span) : parse d.toText = .ok d := by
  obtain ⟨p, ps, htext, hlegible, htotal⟩ := d.toText_eq
  rw [total_parts] at htotal
  have hd := d.nanos_lt
  have hs : (total (p :: ps)).1 < wordRange := by
    rw [htotal]
    dsimp only
    omega
  have hn : (total (p :: ps)).2 < 1000000000 := by
    rw [htotal]
    exact Nat.mod_lt _ (by decide)
  have hread := readFrom_parts hlegible (fun q => count_lt hs hn) false {} 0 0
  rw [addParts_eq hlegible (by rwa [Nat.zero_add]) (by rwa [Nat.zero_add]), htotal] at hread
  unfold parse
  rw [if_neg (htext ▸ intercalate_ne_zero (hlegible p List.mem_cons_self) ps), htext, hread]
  refine congrArg Except.ok (ext_nanos ?_)
  unfold ofNanos
  dsimp only
  omega

end ClusterBroker.Span
