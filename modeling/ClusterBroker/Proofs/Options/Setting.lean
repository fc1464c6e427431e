import ClusterBroker.Proofs.Options.Form
import ClusterBroker.Proofs.Value.Overlay

/-!
# Settings

The options of a broker one by one: each has a place among the fields of the options, where it may
be given apart from all others. Together they are the options. Options that are read from layers
have in each setting what the highest layer gives that gives it at all.
-/
namespace ClusterBroker

open Value

/-- One option of a broker: the section that it stands in, if any, with the names of the section's
fields in order, its own name, how it is read, and what it is. -/
structure Setting where
  {α : Type}
  group? : Option (String × List String)
  name : String
  reader : Reader α
  get : BrokerOptions → α

namespace Setting

def deadlock {α : Type} (name : String) (reader : Reader α) (get : DeadlockOptions → α) : Setting :=
  ⟨some ("anti-deadlock", DeadlockOptions.record.fields), name, reader, fun o => get o.antiDeadlock⟩

def cache {α : Type} (name : String) (reader : Reader α) (get : CacheOptions → α) : Setting :=
  ⟨some ("cache", (CacheOptions.record false).fields), name, reader, fun o => get o.cache⟩

/-- The log filter, which has a variable of its own. -/
def logFilter : Setting := ⟨none, "log-filter", .collectedText, fun o => o.logging.filter⟩

/-- All options. -/
def all : List Setting := [
  ⟨none, "queue", .text, fun o => o.queue.text⟩,
  logFilter,
  ⟨none, "log-format", .collectedVariant LogFormat.ofText?, fun o => o.logging.format⟩,
  ⟨none, "log-disable-ansi-codes", .bool, fun o => o.logging.disableAnsiCodes⟩,
  deadlock "enabled" .bool DeadlockOptions.enabled,
  deadlock "no-allocation-limit" Span.reader DeadlockOptions.noAllocationLimit,
  deadlock "backoff-percent" readByte DeadlockOptions.backoffPercent,
  deadlock "backoff-min-delay" Span.reader DeadlockOptions.backoffMinDelay,
  deadlock "backoff-max-delay" Span.reader DeadlockOptions.backoffMaxDelay,
  cache "enabled" .bool CacheOptions.enabled,
  cache "eviction-policy" (.variant false EvictionKind.ofText?) CacheOptions.evictionPolicy,
  cache "eviction-run-interval" Span.reader CacheOptions.evictionRunInterval,
  cache "eviction-idle-timeout" Span.reader CacheOptions.evictionIdleTimeout]

/-- The names that lead to a setting. -/
def path (s : Setting) : List String :=
  match s.group? with
  | none => [s.name]
  | some (group, _) => [group, s.name]

/-- What a value has for a setting. A section may be given as the list of its fields' values. -/
def part? (s : Setting) (v : Value) : Option Value :=
  match s.group? with
  | none => Value.part? [] s.name v
  | some (group, fields) => (Value.part? [] group v).bind (Value.part? fields s.name)

/-- What a value gives for a setting; an empty table gives nothing. -/
def given? (s : Setting) (v : Value) : Option Value := Value.given? (s.part? v)

/-- Options have in a setting what a value reads as. -/
def Agrees (s : Setting) (v : Value) (o : BrokerOptions) : Prop := s.reader v = .ok (s.get o)

/-- Options with the same settings are the same. -/
theorem ext_get {o o' : BrokerOptions} (h : ∀ s ∈ all, s.get o = s.get o') : o = o' := by
  obtain ⟨⟨queue⟩, ⟨filter, format, codes⟩, ⟨a, b, c, d, e⟩, ⟨f, g, i, j⟩⟩ := o
  obtain ⟨⟨queue'⟩, ⟨filter', format', codes'⟩, ⟨a', b', c', d', e'⟩, ⟨f', g', i', j'⟩⟩ := o'
  simp only [all, deadlock, cache, logFilter, List.forall_mem_cons] at h
  obtain ⟨rfl, rfl, rfl, rfl, rfl, rfl, rfl, rfl, rfl, rfl, rfl, rfl, rfl, -⟩ := h
  rfl

theorem isPlace (s : Setting) : IsPlace s.part? := by
  unfold part?
  cases s.group? with
  | none => exact isPlace_part? [] s.name
  | some place => exact (isPlace_part? [] place.1).part? place.2 s.name

/-- What is at the end of a setting's path is what is given for it. -/
theorem part?_of_at? {s : Setting} {v w : Value} (h : at? s.path v = some w) :
    s.part? v = some w := by
  obtain ⟨group, name, reader, get⟩ := s
  cases v with
  | object fs =>
    cases group with
    | none =>
      obtain ⟨u, hu, h⟩ := Option.bind_eq_some_iff.1 h
      exact hu.trans h
    | some place =>
      obtain ⟨u, hu, h⟩ := Option.bind_eq_some_iff.1 h
      change (field? place.1 fs).bind (Value.part? place.2 name) = some w
      rw [hu]
      cases u with
      | object gs =>
        obtain ⟨x, hx, h⟩ := Option.bind_eq_some_iff.1 h
        exact hx.trans h
      | _ => exact nomatch h
  | _ => cases group <;> exact nomatch h

/-- At a path that leads elsewhere nothing is given for a setting. -/
theorem part?_ofPath_of_apart {s : Setting} {path : List String} (hs : ¬ s.path <+: path)
    (hpath : ¬ path <+: s.path) (v : Value) : s.part? (ofPath path v) = none := by
  obtain ⟨group, name, reader, get⟩ := s
  cases path with
  | nil => exact absurd List.nil_prefix hpath
  | cons k path =>
    cases group with
    | none =>
      have hne : k ≠ name := fun heq => hs (heq ▸ List.prefix_append [k] path)
      exact if_neg hne
    | some place =>
      change (field? place.1 [(k, ofPath path v)]).bind (Value.part? place.2 name) = none
      by_cases heq : k = place.1
      · subst heq
        rw [field?, if_pos rfl]
        cases path with
        | nil => exact absurd (List.prefix_append [place.1] [name]) hpath
        | cons n path =>
          have hne : n ≠ name := fun heq => hs (heq ▸ List.prefix_append [place.1, n] path)
          exact if_neg hne
      · rw [field?, if_neg heq]
        rfl

theorem given?_ofPath (s : Setting) {v : Value} (hv : v ≠ .object []) :
    s.given? (ofPath s.path v) = some v := by
  rw [given?, part?_of_at? (at?_ofPath s.path v)]
  exact given?_of_ne hv

theorem topmost : ∀ s ∈ all, Reader.Topmost s.reader := by
  have hspan : Reader.Topmost Span.reader := .of_refuses fun _ _ _ => nofun
  have hbyte : Reader.Topmost readByte := .of_refuses fun _ _ _ => nofun
  simp only [all, List.forall_mem_cons]
  exact ⟨Reader.topmost_text, Reader.topmost_collectedText, Reader.topmost_collectedVariant _,
    Reader.topmost_bool, Reader.topmost_bool, hspan, hbyte, hspan, hspan, Reader.topmost_bool,
    Reader.topmost_variant false _, hspan, hspan, List.forall_mem_nil _⟩

/-- No setting stands inside another. -/
theorem paths_apart : ∀ s ∈ all, ∀ t ∈ all, s.path ≠ t.path → ¬ s.path <+: t.path := by
  decide

/-- A table with one setting gives no other. -/
theorem given?_ofPath_of_ne {s t : Setting} (hs : s ∈ all) (ht : t ∈ all) (hne : s.path ≠ t.path)
    (v : Value) : s.given? (ofPath t.path v) = none := by
  have hnone := part?_ofPath_of_apart (paths_apart s hs t ht hne)
    (paths_apart t ht s hs (Ne.symm hne)) v
  rw [given?, hnone]
  rfl

end Setting

theorem DeadlockOptions.toValue_proper (o : DeadlockOptions) : Proper o.toValue := by
  refine .object (by simp) ?_
  simp only [List.forall_mem_cons]
  exact ⟨.bool _, .string _, .int _, .string _, .string _, List.forall_mem_nil _⟩

theorem CacheOptions.toValue_proper (o : CacheOptions) : Proper o.toValue := by
  refine .object (by simp) ?_
  simp only [List.forall_mem_cons]
  exact ⟨.bool _, .string _, .string _, .string _, List.forall_mem_nil _⟩

theorem BrokerOptions.toValue_proper (o : BrokerOptions) : Proper o.toValue := by
  refine .object (by simp [LoggingOptions.fields]) ?_
  simp only [LoggingOptions.fields, List.cons_append, List.nil_append, List.forall_mem_cons]
  exact ⟨.string _, .string _, .string _, .bool _, o.antiDeadlock.toValue_proper,
    o.cache.toValue_proper, List.forall_mem_nil _⟩

/-! ### What options are read from -/

namespace Value.Record

variable {α : Type}

/-- What a record is read from, be it an object or a list, has what the record is built from. -/
theorem build_of_reader {closed : Bool} {r : Record α} {v : Value} {a : α}
    (h : r.reader closed v = .ok a) : r.build (Value.part? r.fields · v) = .ok a := by
  cases v with
  | object fs => exact mapError_eq_ok.1 h
  | array vs =>
    change r.ofItems closed vs = .ok a at h
    unfold ofItems at h
    split at h
    next => cases h
    next b hb =>
      split at h
      next => cases h
      next => exact Except.ok.inj h ▸ hb
  | _ => cases h

end Value.Record

/-- Among the entries that are looked up is one that reads as this. -/
def HasEntry {α : Type} (get : String → Option Value) (name : String) (r : Reader α) (a : α) :
    Prop := ∃ v, get name = some v ∧ r v = .ok a

theorem Value.Record.hasEntry {α β : Type} {get : String → Option Value} {f : Record (α → β)}
    {name : String} {r : Reader α} {b : β} (h : (f.field name r).build get = .ok b) :
    ∃ g a, f.build get = .ok g ∧ HasEntry get name r a ∧ g a = b := by
  obtain ⟨g, a, v, hf, hget, hr, hb⟩ := field_build_eq_ok.1 h
  exact ⟨g, a, hf, ⟨v, hget, hr⟩, hb⟩

theorem DeadlockOptions.hasEntries {get : String → Option Value} {o : DeadlockOptions}
    (h : DeadlockOptions.record.build get = .ok o) :
    HasEntry get "enabled" .bool o.enabled ∧
    HasEntry get "no-allocation-limit" Span.reader o.noAllocationLimit ∧
    HasEntry get "backoff-percent" readByte o.backoffPercent ∧
    HasEntry get "backoff-min-delay" Span.reader o.backoffMinDelay ∧
    HasEntry get "backoff-max-delay" Span.reader o.backoffMaxDelay := by
  obtain ⟨_, _, h₁, hmax, rfl⟩ := Record.hasEntry h
  obtain ⟨_, _, h₂, hmin, rfl⟩ := Record.hasEntry h₁
  obtain ⟨_, _, h₃, hpercent, rfl⟩ := Record.hasEntry h₂
  obtain ⟨_, _, h₄, hlimit, rfl⟩ := Record.hasEntry h₃
  obtain ⟨_, _, h₅, henabled, rfl⟩ := Record.hasEntry h₄
  obtain rfl := Except.ok.inj h₅
  exact ⟨henabled, hlimit, hpercent, hmin, hmax⟩

theorem CacheOptions.hasEntries {get : String → Option Value} {o : CacheOptions}
    (h : (CacheOptions.record false).build get = .ok o) :
    HasEntry get "enabled" .bool o.enabled ∧
    HasEntry get "eviction-policy" (.variant false EvictionKind.ofText?) o.evictionPolicy ∧
    HasEntry get "eviction-run-interval" Span.reader o.evictionRunInterval ∧
    HasEntry get "eviction-idle-timeout" Span.reader o.evictionIdleTimeout := by
  obtain ⟨_, _, h₁, htimeout, rfl⟩ := Record.hasEntry h
  obtain ⟨_, _, h₂, hinterval, rfl⟩ := Record.hasEntry h₁
  obtain ⟨_, _, h₃, hpolicy, rfl⟩ := Record.hasEntry h₂
  obtain ⟨_, _, h₄, henabled, rfl⟩ := Record.hasEntry h₃
  obtain rfl := Except.ok.inj h₄
  exact ⟨henabled, hpolicy, hinterval, htimeout⟩

theorem LoggingOptions.hasEntries {get : String → Option Value} {o : LoggingOptions}
    (h : LoggingOptions.collectedRecord.build get = .ok o) :
    HasEntry get "log-filter" .collectedText o.filter ∧
    HasEntry get "log-format" (.collectedVariant LogFormat.ofText?) o.format ∧
    HasEntry get "log-disable-ansi-codes" .bool o.disableAnsiCodes := by
  obtain ⟨_, _, h₁, hcodes, rfl⟩ := Record.hasEntry h
  obtain ⟨_, _, h₂, hformat, rfl⟩ := Record.hasEntry h₁
  obtain ⟨_, _, h₃, hfilter, rfl⟩ := Record.hasEntry h₂
  obtain rfl := Except.ok.inj h₃
  exact ⟨hfilter, hformat, hcodes⟩

namespace Setting

/-- What options are read from has each setting as the options have it. -/
theorem agrees_of_reader {v : Value} {o : BrokerOptions}
    (h : BrokerOptions.reader false v = .ok o) :
    ∀ s ∈ all, ∃ u, s.part? v = some u ∧ s.Agrees u o := by
  cases v with
  | object fs =>
    obtain ⟨rest, hrest, h⟩ := bind_eq_ok.1 h
    obtain ⟨logging, hlogging, h⟩ := bind_eq_ok.1 h
    obtain ⟨_, _, h₁, ⟨cache, hcache, hc⟩, rfl⟩ := Record.hasEntry (mapError_eq_ok.1 hrest)
    obtain ⟨_, _, h₂, ⟨deadlock, hdeadlock, hd⟩, rfl⟩ := Record.hasEntry h₁
    obtain ⟨_, _, h₃, hqueue, rfl⟩ := Record.hasEntry h₂
    obtain rfl := Except.ok.inj h₃
    obtain rfl := Except.ok.inj h
    obtain ⟨hfilter, hformat, hcodes⟩ :=
      LoggingOptions.hasEntries (mapError_eq_ok.1 (mapError_eq_ok.1 hlogging))
    obtain ⟨hd₁, hd₂, hd₃, hd₄, hd₅⟩ := DeadlockOptions.hasEntries (Record.build_of_reader hd)
    obtain ⟨hc₁, hc₂, hc₃, hc₄⟩ := CacheOptions.hasEntries (Record.build_of_reader hc)
    -- The entries of a section are found once the section is.
    have hsection {β : Type} {name inner : String} {fields : List String} {u : Value}
        {read : Reader β} {b : β} (hu : field? name fs = some u)
        (h : HasEntry (Value.part? fields · u) inner read b) :
        ∃ w, (field? name fs).bind (Value.part? fields inner) = some w ∧ read w = .ok b := by
      rw [hu]
      exact h
    simp only [all, List.forall_mem_cons]
    exact ⟨hqueue, hfilter, hformat, hcodes, hsection hdeadlock hd₁, hsection hdeadlock hd₂,
      hsection hdeadlock hd₃, hsection hdeadlock hd₄, hsection hdeadlock hd₅,
      hsection hcache hc₁, hsection hcache hc₂, hsection hcache hc₃, hsection hcache hc₄,
      List.forall_mem_nil _⟩
  | _ => exact nomatch h

/-- Options that are read from layers have in each setting what the highest layer gives that gives
anything. -/
theorem agrees_highest {base : Value} (hbase : Proper base) {layers : List Value}
    (hlayers : ∀ v ∈ layers, Proper v) {o : BrokerOptions}
    (h : BrokerOptions.reader false (overlaid base layers) = .ok o) :
    ∀ s ∈ all, ∃ u, (layers ++ [base]).findSome? s.given? = some u ∧ s.Agrees u o := by
  intro s hs
  obtain ⟨v, hv, hread⟩ := agrees_of_reader h s hs
  exact read_highest s.isPlace (topmost s hs) hbase hlayers hv hread

end Setting

end ClusterBroker
