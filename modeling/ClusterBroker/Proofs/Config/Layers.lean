import ClusterBroker.Proofs.Config.Variable
import ClusterBroker.Proofs.Options.Setting
import ClusterBroker.Proofs.Toml

/-!
# Options from layers

Loading lays the layers over the defaults and reads the result. What is loaded has in each setting
the value of the highest layer that gives one: the variable for the log filter, the variables for
all options, the file, the defaults. A variable that names one setting gives this one, and no other.
-/
namespace ClusterBroker.Config

open Value (Proper ofPath overlaid at? bind_eq_ok map_eq_ok mapError_eq_ok)

/-! ### The layers -/

/-- The layer of a file, if there is one. -/
def fileLayers : Option File → Except Value.Fault (List Value)
  | none => .ok []
  | some f => f.layer.map fun v => [v]

/-- The layers over the defaults: the variable for the log filter, the variables for all options,
and the file. -/
structure HasLayers (file : Option File) (env : Option (List (String × String)))
    (filter options : Value) (below : List Value) : Prop where
  filter : variablesLayer filterPath? (env.getD []) = some filter
  options : variablesLayer path? (env.getD []) = some options
  below : fileLayers file = .ok below

theorem environmentLayers_eq_ok {vars : List (String × String)} {above : List Value} :
    environmentLayers vars = .ok above ↔ ∃ filter options,
      variablesLayer filterPath? vars = some filter ∧
      variablesLayer path? vars = some options ∧ above = [options, filter] := by
  unfold environmentLayers
  cases variablesLayer path? vars with
  | none => simp
  | some options =>
    cases variablesLayer filterPath? vars with
    | none => simp
    | some filter => simp [eq_comm]

theorem merged_eq (base : BrokerOptions) (file : Option File)
    (env : Option (List (String × String))) : merged base file env =
      environmentLayers (env.getD []) >>= fun above => (fileLayers file).map fun below =>
        (below ++ above).foldl Value.overlay base.toValue := by
  unfold merged fileLayers
  cases environmentLayers (env.getD []) with
  | error e => rfl
  | ok above =>
    cases file with
    | none => rfl
    | some f =>
      dsimp only
      cases f.layer <;> rfl

/-- There is one layer of a file at most. -/
theorem reverse_of_fileLayers {file : Option File} {below : List Value}
    (h : fileLayers file = .ok below) : below.reverse = below := by
  cases file with
  | none => exact Except.ok.inj h ▸ rfl
  | some f =>
    obtain ⟨v, -, rfl⟩ := map_eq_ok.1 h
    rfl

theorem merged_eq_ok {base : BrokerOptions} {file : Option File}
    {env : Option (List (String × String))} {v : Value} :
    merged base file env = .ok v ↔ ∃ filter options below, HasLayers file env filter options below ∧
      overlaid base.toValue (filter :: options :: below) = v := by
  have hlaid {filter options : Value} {below : List Value} (h : fileLayers file = .ok below) :
      (below ++ [options, filter]).foldl Value.overlay base.toValue =
        overlaid base.toValue (filter :: options :: below) := by
    have hreverse : (below ++ [options, filter]).reverse = filter :: options :: below := by
      simp [reverse_of_fileLayers h]
    rw [← hreverse]
    exact List.foldr_reverse.symm
  rw [merged_eq, bind_eq_ok]
  constructor
  · rintro ⟨above, habove, h⟩
    obtain ⟨below, hbelow, rfl⟩ := map_eq_ok.1 h
    obtain ⟨filter, options, hfilter, hoptions, rfl⟩ := environmentLayers_eq_ok.1 habove
    exact ⟨filter, options, below, ⟨hfilter, hoptions, hbelow⟩, (hlaid hbelow).symm⟩
  · rintro ⟨filter, options, below, ⟨hfilter, hoptions, hbelow⟩, rfl⟩
    exact ⟨[options, filter], environmentLayers_eq_ok.2 ⟨filter, options, hfilter, hoptions, rfl⟩,
      map_eq_ok.2 ⟨below, hbelow, hlaid hbelow⟩⟩

/-- Options are loaded if the layers together read as options that make sense. -/
theorem load_eq_ok {base o : BrokerOptions} {file : Option File}
    {env : Option (List (String × String))} :
    load base file env = .ok o ↔ ∃ filter options below, HasLayers file env filter options below ∧
      BrokerOptions.reader false (overlaid base.toValue (filter :: options :: below)) = .ok o ∧
      o.fault? = none := by
  unfold load
  simp only [bind_eq_ok, mapError_eq_ok, merged_eq_ok]
  constructor
  · rintro ⟨v, ⟨filter, options, below, hlayers, rfl⟩, u, hread, h⟩
    split at h
    next => exact nomatch h
    next hfault =>
      obtain rfl := Except.ok.inj h
      exact ⟨filter, options, below, hlayers, hread, hfault⟩
  · rintro ⟨filter, options, below, hlayers, hread, hfault⟩
    exact ⟨_, ⟨filter, options, below, hlayers, rfl⟩, o, hread, by rw [hfault]⟩

/-! ### Variables -/

/-- The layer of the variables before, with one more: what it sets is laid over them. -/
def withVariable (path? : String → Option (List String)) (layer : Value) (e : String × String) :
    Option Value :=
  match path? e.1 with
  | none => some layer
  | some p => (Variable.parse e.2).map fun v => layer.overlay (ofPath p v)

theorem variablesLayer_eq (path? : String → Option (List String)) (vars : List (String × String)) :
    variablesLayer path? vars = vars.foldlM (withVariable path?) (.object []) := rfl

/-- A variable that names a place on the way to a setting, or behind it. -/
def Concerns (path? : String → Option (List String)) (e : String × String) (path : List String) :
    Prop := ∃ p, path? e.1 = some p ∧ (path <+: p ∨ p <+: path)

section Variables

variable {path? : String → Option (List String)} {vars : List (String × String)}
  {e : String × String} {layer found : Value} {s : Setting}

/-- What a variable does to a layer: nothing, or it sets a proper value at the path it names. -/
theorem withVariable_eq_some (h : withVariable path? layer e = some found) :
    path? e.1 = none ∧ found = layer ∨ ∃ p v, path? e.1 = some p ∧ Variable.parse e.2 = some v ∧
      v.Proper ∧ found = layer.overlay (ofPath p v) := by
  unfold withVariable at h
  split at h
  next hpath => exact .inl ⟨hpath, (Option.some.inj h).symm⟩
  next p hpath =>
    obtain ⟨v, hv, rfl⟩ := Option.map_eq_some_iff.1 h
    exact .inr ⟨p, v, hpath, hv, Variable.parse_proper hv, rfl⟩

/-- What every variable keeps of a layer all of them keep. -/
theorem foldlM_withVariable (P : Value → Prop)
    (hstep : ∀ e ∈ vars, ∀ {layer found}, P layer →
      withVariable path? layer e = some found → P found)
    (hlayer : P layer) (h : vars.foldlM (withVariable path?) layer = some found) : P found := by
  induction vars generalizing layer with
  | nil => exact Option.some.inj h ▸ hlayer
  | cons e vars ih =>
    obtain ⟨he, hvars⟩ := List.forall_mem_cons.1 hstep
    rw [List.foldlM_cons] at h
    obtain ⟨next, hnext, h⟩ := Option.bind_eq_some_iff.1 h
    exact ih hvars (he hlayer hnext) h

theorem variablesLayer_proper (h : variablesLayer path? vars = some layer) : layer.Proper := by
  refine foldlM_withVariable Proper (fun e _ layer found hlayer hfound => ?_) Value.proper_empty h
  rcases withVariable_eq_some hfound with ⟨-, rfl⟩ | ⟨p, v, -, -, hv, rfl⟩
  · exact hlayer
  · exact hlayer.overlay (hv.ofPath p)

/-- Variables that do not concern a setting give nothing for it. -/
theorem variablesLayer_unconcerned (hvars : ∀ e ∈ vars, ¬ Concerns path? e s.path)
    (h : variablesLayer path? vars = some layer) : s.given? layer = none := by
  have hnone : s.part? layer = none := by
    have hempty : s.part? (.object []) = none := by
      unfold Setting.part?
      split <;> rfl
    refine foldlM_withVariable (fun v => s.part? v = none)
      (fun e he layer found hlayer hfound => ?_) hempty h
    rcases withVariable_eq_some hfound with ⟨-, rfl⟩ | ⟨p, v, hp, -, hv, rfl⟩
    · exact hlayer
    · have hover := s.isPlace.laidOver layer (hv.ofPath p)
      have htop : s.part? (ofPath p v) = none :=
        Setting.part?_ofPath_of_apart (fun hpath => hvars e he ⟨p, hp, .inl hpath⟩)
          (fun hpath => hvars e he ⟨p, hp, .inr hpath⟩) v
      rw [hlayer, htop] at hover
      exact hover.eq_none
  rw [Setting.given?, hnone]
  rfl

/-- The last variable that concerns a setting, and names it, gives what its text is. -/
theorem variablesLayer_last {before after : List (String × String)} {v : Value}
    (he : path? e.1 = some s.path) (hv : Variable.parse e.2 = some v)
    (hplain : ∀ fs, v ≠ .object fs) (hafter : ∀ x ∈ after, ¬ Concerns path? x s.path)
    (h : variablesLayer path? (before ++ e :: after) = some layer) : s.given? layer = some v := by
  rw [variablesLayer_eq, List.foldlM_append] at h
  obtain ⟨below, -, h⟩ := Option.bind_eq_some_iff.1 h
  rw [List.foldlM_cons] at h
  obtain ⟨next, hnext, h⟩ := Option.bind_eq_some_iff.1 h
  have hat : at? s.path next = some v := by
    simp only [withVariable, he, hv, Option.map_some] at hnext
    exact Option.some.inj hnext ▸ Value.at?_overlay_ofPath hplain s.path below
  have hend : at? s.path layer = some v := by
    refine foldlM_withVariable (fun u => at? s.path u = some v)
      (fun x hx layer found hlayer hfound => ?_) hat h
    rcases withVariable_eq_some hfound with ⟨-, rfl⟩ | ⟨p, u, hp, -, -, rfl⟩
    · exact hlayer
    · exact Value.at?_overlay_ofPath_of_apart (fun hpath => hafter x hx ⟨p, hp, .inl hpath⟩)
        (fun hpath => hafter x hx ⟨p, hp, .inr hpath⟩) hlayer u
  rw [Setting.given?, Setting.part?_of_at? hend]
  exact Value.given?_of_ne (hplain [])

end Variables

/-! ### Proper layers -/

theorem file_proper {f : File} {v : Value} (h : f.layer = .ok v) : v.Proper := by
  unfold File.layer at h
  split at h
  next => exact nomatch h
  next s envelope =>
    split at h
    next fs hfs =>
      obtain rfl := Except.ok.inj h
      unfold documentFields at hfs
      split at hfs
      next => exact nomatch hfs
      next hparse => exact Option.some.inj hfs ▸ Toml.parse_proper hparse
      next hparse => exact Value.Envelope.openFields_proper_object (Toml.parse_proper hparse) hfs
    next => exact nomatch h

theorem HasLayers.proper {file : Option File} {env : Option (List (String × String))}
    {filter options : Value} {below : List Value} (h : HasLayers file env filter options below) :
    ∀ v ∈ filter :: options :: below, v.Proper := by
  refine List.forall_mem_cons.2 ⟨variablesLayer_proper h.filter,
    List.forall_mem_cons.2 ⟨variablesLayer_proper h.options, ?_⟩⟩
  cases file with
  | none => exact Except.ok.inj h.below ▸ List.forall_mem_nil _
  | some f =>
    obtain ⟨v, hv, heq⟩ := map_eq_ok.1 h.below
    exact heq ▸ List.forall_mem_singleton.2 (file_proper hv)

/-! ### Loaded options -/

/-- What a layer of variables gives. For a setting that no variable concerns it gives nothing. If
the last variable that concerns a setting names it, and its text is no table, it gives what the
text is. -/
def Gives (path? : String → Option (List String)) (vars : List (String × String))
    (layer : Value) : Prop :=
  ∀ s ∈ Setting.all, ((∀ e ∈ vars, ¬ Concerns path? e s.path) → s.given? layer = none) ∧
    ∀ before e after v, vars = before ++ e :: after → path? e.1 = some s.path →
      Variable.parse e.2 = some v → (∀ fs, v ≠ .object fs) →
      (∀ x ∈ after, ¬ Concerns path? x s.path) → s.given? layer = some v

theorem gives_of_variablesLayer {path? : String → Option (List String)}
    {vars : List (String × String)} {layer : Value} (h : variablesLayer path? vars = some layer) :
    Gives path? vars layer := by
  refine fun s _ => ⟨fun hvars => variablesLayer_unconcerned hvars h, ?_⟩
  rintro before e after v rfl he hv hplain hafter
  exact variablesLayer_last he hv hplain hafter h

theorem filterPath?_eq_some {name : String} {path : List String}
    (h : filterPath? name = some path) : path = Setting.logFilter.path := by
  obtain ⟨-, heq⟩ := Option.ite_none_right_eq_some.1 h
  exact (Option.some.inj heq).symm

/-- The variable for the log filter gives nothing else. -/
theorem filter_gives_filter {vars : List (String × String)} {layer : Value}
    (h : variablesLayer filterPath? vars = some layer) {s : Setting} (hs : s ∈ Setting.all)
    (hne : s.path ≠ Setting.logFilter.path) : s.given? layer = none := by
  have hfilter : Setting.logFilter ∈ Setting.all := List.mem_cons_of_mem _ List.mem_cons_self
  refine variablesLayer_unconcerned (fun e _ hconcerns => ?_) h
  obtain ⟨p, hp, hpath⟩ := hconcerns
  obtain rfl := filterPath?_eq_some hp
  exact hpath.elim (Setting.paths_apart s hs _ hfilter hne)
    (Setting.paths_apart _ hfilter s hs (Ne.symm hne))

theorem path_isName : ∀ s ∈ Setting.all, s.path ≠ [] ∧ ∀ n ∈ s.path, isName n.toList := by
  decide

theorem path?_setting {s : Setting} (hs : s ∈ Setting.all) :
    path? (variableFor s.path) = some s.path :=
  path?_variableFor (path_isName s hs).1 (path_isName s hs).2

/-- The variable that is spelled for a setting concerns no other. -/
theorem not_concerns_variableFor {s t : Setting} (hs : s ∈ Setting.all) (ht : t ∈ Setting.all)
    (hne : s.path ≠ t.path) (text : String) :
    ¬ Concerns path? (variableFor t.path, text) s.path := by
  rintro ⟨p, hp, hpath⟩
  obtain rfl := Option.some.inj ((path?_setting ht).symm.trans hp)
  exact hpath.elim (Setting.paths_apart s hs t ht hne) (Setting.paths_apart t ht s hs (Ne.symm hne))

theorem load_defaults (base : BrokerOptions) : load base none none = match base.fault? with
    | none => .ok base
    | some f => .error (.invalid f) := by
  have hmerged : merged base none none = .ok base.toValue := rfl
  unfold load
  rw [hmerged]
  change ((BrokerOptions.reader false base.toValue).mapError LoadFault.unreadable).bind _ = _
  rw [(BrokerOptions.reads false).written base]
  cases hfault : base.fault? <;> simp [Except.mapError, Except.bind, hfault]

/-- Options are loaded exactly if the layers together read as options that make sense. Then every
setting is what the highest layer says that gives it: the variable for the log filter, which gives
nothing else, then the variables that are spelled for the settings, then the file, then the
defaults. A variable for one setting leaves all others alone. Without a file and variables the
defaults are what is loaded, if they make sense. -/
theorem load_layered (base : BrokerOptions) (file : Option File)
    (env : Option (List (String × String))) :
    (∀ o, load base file env = .ok o ↔
      ∃ filter options below, HasLayers file env filter options below ∧
        BrokerOptions.reader false (overlaid base.toValue (filter :: options :: below)) = .ok o ∧
        o.fault? = none) ∧
    (∀ o filter options below, load base file env = .ok o →
      HasLayers file env filter options below → ∀ s ∈ Setting.all,
        ∃ v, (filter :: options :: below ++ [base.toValue]).findSome? s.given? = some v ∧
          s.Agrees v o) ∧
    (∀ filter options below, HasLayers file env filter options below →
      Gives filterPath? (env.getD []) filter ∧ Gives path? (env.getD []) options ∧
      ∀ s ∈ Setting.all, s.path ≠ Setting.logFilter.path → s.given? filter = none) ∧
    filterPath? "RUST_LOG" = some Setting.logFilter.path ∧
    (∀ path : List String, path ≠ [] → (∀ n ∈ path, isName n.toList) →
      path? (variableFor path) = some path) ∧
    (∀ s ∈ Setting.all, path? (variableFor s.path) = some s.path ∧
      (∀ v, v ≠ .object [] → s.given? (ofPath s.path v) = some v) ∧
      ∀ t ∈ Setting.all, t.path ≠ s.path → (∀ v, t.given? (ofPath s.path v) = none) ∧
        ∀ text, ¬ Concerns path? (variableFor s.path, text) t.path) ∧
    (∀ o o' : BrokerOptions, (∀ s ∈ Setting.all, s.get o = s.get o') → o = o') ∧
    load base none none = match base.fault? with
      | none => .ok base
      | some f => .error (.invalid f) := by
  refine ⟨fun o => load_eq_ok, fun o filter options below hload hlayers => ?_,
    fun filter options below hlayers => ⟨gives_of_variablesLayer hlayers.filter,
      gives_of_variablesLayer hlayers.options, fun s hs => filter_gives_filter hlayers.filter hs⟩,
    by decide, fun path => path?_variableFor,
    fun s hs => ⟨path?_setting hs, fun _ => s.given?_ofPath, fun t ht hne =>
      ⟨Setting.given?_ofPath_of_ne ht hs hne, not_concerns_variableFor ht hs hne⟩⟩,
    fun o o' => Setting.ext_get, load_defaults base⟩
  obtain ⟨filter', options', below', hlayers', hread, -⟩ := load_eq_ok.1 hload
  obtain rfl := Option.some.inj (hlayers.filter.symm.trans hlayers'.filter)
  obtain rfl := Option.some.inj (hlayers.options.symm.trans hlayers'.options)
  obtain rfl := Except.ok.inj (hlayers.below.symm.trans hlayers'.below)
  exact Setting.agrees_highest base.toValue_proper hlayers.proper hread

/-- A file gives a log format and when the cache evicts; one variable switches the cache off, and
another sets the log filter. Everything else is as the defaults have it. -/
theorem load_layered_overridden :
    let file : File := .text "log-format = \"json\"\n\n[cache]\neviction-policy = \"never\"\n"
    let env := [("CORRAL_CACHE__ENABLED", "false"), ("RUST_LOG", "debug")]
    let o : BrokerOptions := {
      logging := { filter := "debug", format := .json }
      cache := { enabled := false, evictionPolicy := .never } }
    load {} (some file) (some env) = .ok o ∧
    ∃ filter options below, HasLayers (some file) (some env) filter options below ∧
      (∀ s ∈ Setting.all, ∃ v,
        (filter :: options :: below ++ [BrokerOptions.toValue {}]).findSome? s.given? = some v ∧
          s.Agrees v o) ∧
      Setting.logFilter.given? options = none ∧
      Setting.logFilter.given? filter = some (.string "debug") := by
  intro file env o
  have hload : load {} (some file) (some env) = .ok o := by decide +kernel
  obtain ⟨hok, hhighest, hvariables, hnamed, hspelled, -⟩ := load_layered {} (some file) (some env)
  obtain ⟨filter, options, below, hlayers, -, -⟩ := (hok o).1 hload
  obtain ⟨hfilter, hoptions, -⟩ := hvariables filter options below hlayers
  have hmem : Setting.logFilter ∈ Setting.all := List.mem_cons_of_mem _ List.mem_cons_self
  have hcache : path? "CORRAL_CACHE__ENABLED" = some ["cache", "enabled"] :=
    hspelled ["cache", "enabled"] (List.cons_ne_nil _ _) (by decide)
  refine ⟨hload, filter, options, below, hlayers,
    hhighest o filter options below hload hlayers, (hoptions _ hmem).1 ?_, ?_⟩
  · refine List.forall_mem_cons.2 ⟨?_, List.forall_mem_singleton.2 ?_⟩
    · rintro ⟨p, hp, hpath⟩
      obtain rfl := Option.some.inj (hcache.symm.trans hp)
      exact absurd hpath (by decide)
    · rintro ⟨p, hp, -⟩
      exact nomatch hp
  · exact (hfilter _ hmem).2 [("CORRAL_CACHE__ENABLED", "false")] ("RUST_LOG", "debug") [] _ rfl
      hnamed (by rfl) nofun (List.forall_mem_nil _)

end ClusterBroker.Config
