import DebugLink.Proofs.Config.Content
import DebugLink.Proofs.Files.Growth
import Mathlib.Data.List.Induction
import Mathlib.Data.List.Nodup
import Mathlib.Tactic.SplitIfs

/-!
Layers of configuration. An overlay gives a value to some of the settings, and every setting of a
configuration has the value that the last overlay gives to it (`Config.value_under`). Two overlays
one on top of the other are one overlay (`Overlay.apply_apply`). The rules for values are those of
the configuration in the end and of no layer (`Config.Reader.ofFiles_eq_ok_iff`), so a layer may
mend what a lower one sets. Of what reads the texts nothing is asked but that comments and blank
lines set nothing (`Config.Reader.IgnoresComments`).
-/

set_option autoImplicit false

namespace DebugLink

/-! ### The values of settings -/

/-- What the value of a setting is. -/
abbrev Setting.Value : Setting → Type
  | program => String
  | arguments => List String
  | useTerminal | autoUpdate => Bool
  | timeout | maxElements => Nat
  | firstToken => Token
  | logLevel => LogLevel
  | logFile => Option String

/-- The value of a setting in a configuration. -/
def Config.value (config : Config) : (setting : Setting) → setting.Value
  | .program => config.program
  | .arguments => config.arguments
  | .useTerminal => config.useTerminal
  | .timeout => config.timeout
  | .firstToken => config.firstToken
  | .autoUpdate => config.autoUpdate
  | .maxElements => config.maxElements
  | .logLevel => config.logLevel
  | .logFile => config.logFile

/-- The value that an overlay gives to a setting, if it sets it. A log file can be set but not taken
away. -/
def Overlay.value? (overlay : Overlay) : (setting : Setting) → Option setting.Value
  | .program => overlay.program
  | .arguments => overlay.arguments
  | .useTerminal => overlay.useTerminal
  | .timeout => overlay.timeout
  | .firstToken => overlay.firstToken
  | .autoUpdate => overlay.autoUpdate
  | .maxElements => overlay.maxElements
  | .logLevel => overlay.logLevel
  | .logFile => overlay.logFile.map some

/-- Two configurations with the same value of every setting are the same. -/
theorem Config.ext_value {config config' : Config}
    (h : ∀ setting, config.value setting = config'.value setting) : config = config' := by
  obtain ⟨program, arguments, useTerminal, timeout, firstToken, autoUpdate, maxElements, logLevel,
    logFile⟩ := config
  rw [Config.mk.injEq]
  exact ⟨h .program, h .arguments, h .useTerminal, h .timeout, h .firstToken, h .autoUpdate,
    h .maxElements, h .logLevel, h .logFile⟩

namespace Setting

/-- Every setting is listed. -/
theorem mem_all (setting : Setting) : setting ∈ all := by
  cases setting <;> decide

/-- No two settings share a name. -/
theorem nodup_names : (all.map name).Nodup := by
  decide +kernel

/-- A setting is known by its name. -/
theorem name_injective : Function.Injective name := fun setting setting' h ↦
  List.inj_on_of_nodup_map nodup_names setting.mem_all setting'.mem_all h

end Setting

namespace Overlay

/-! ### Putting an overlay on top -/

/-- A value that is given replaces the current one, and then its name is noted. -/
theorem run_replace {α : Type} (setting : Setting) (current : α) (value : Option α)
    (names : List String) :
    (replace setting current value).run names =
      pure (value.getD current, names ++ if value.isSome then [setting.name] else []) := by
  cases value with
  | none => exact congrArg (Prod.mk current) names.append_nil.symm
  | some value => rfl

/-- The names of those settings of a list that are held, its head apart. -/
theorem names_filter_cons (setting : Setting) (rest : List Setting) (held : Setting → Bool) :
    ((setting :: rest).filter held).map Setting.name =
      (if held setting then [setting.name] else []) ++ (rest.filter held).map Setting.name := by
  rw [List.filter_cons]
  split_ifs <;> rfl

/-- What is held is replaced, all else stays, and what is replaced is told by its name. -/
theorem run_replaceAll (overlay : Overlay) (config : Config) (names : List String) :
    (overlay.replaceAll config).run names =
      ({ program := overlay.program.getD config.program
         arguments := overlay.arguments.getD config.arguments
         useTerminal := overlay.useTerminal.getD config.useTerminal
         timeout := overlay.timeout.getD config.timeout
         firstToken := overlay.firstToken.getD config.firstToken
         autoUpdate := overlay.autoUpdate.getD config.autoUpdate
         maxElements := overlay.maxElements.getD config.maxElements
         logLevel := overlay.logLevel.getD config.logLevel
         logFile := (overlay.logFile.map some).getD config.logFile },
        names ++ overlay.settings.map Setting.name) := by
  simp only [replaceAll, StateT.run_bind, run_replace, StateT.run_pure, pure_bind, settings,
    Setting.all, names_filter_cons, Option.isSome_map, List.filter_nil, List.map_nil,
    List.append_nil, List.append_assoc]
  rfl

/-- After a layer a setting has the value that the layer gives it, or the one it had. -/
theorem value_apply (overlay : Overlay) (config : Config) (setting : Setting) :
    (overlay.apply config).value setting =
      (overlay.value? setting).getD (config.value setting) := by
  rw [apply, run_replaceAll]
  cases setting <;> rfl

/-- Applying a layer returns the names of the settings that it gives, in their order. -/
theorem names_apply (overlay : Overlay) (config : Config) :
    (overlay.apply config).names = overlay.settings.map Setting.name := by
  rw [apply, run_replaceAll]
  exact List.nil_append _

/-- The settings of a layer are those that it gives a value. -/
theorem mem_settings_iff (overlay : Overlay) (setting : Setting) :
    setting ∈ overlay.settings ↔ (overlay.value? setting).isSome := by
  cases setting <;> simp [settings, Setting.all, value?]

/-- What putting an overlay on top tells: the names of the settings that the overlay holds, in the
order of the sections and each of them once. -/
theorem names_apply_exact (overlay : Overlay) (config : Config) :
    (overlay.apply config).names.Nodup ∧
      (overlay.apply config).names.Sublist (Setting.all.map Setting.name) ∧
      ∀ setting, setting.name ∈ (overlay.apply config).names ↔
        (overlay.value? setting).isSome := by
  rw [names_apply]
  have hsublist : (overlay.settings.map Setting.name).Sublist (Setting.all.map Setting.name) :=
    List.filter_sublist.map Setting.name
  refine ⟨Setting.nodup_names.sublist hsublist, hsublist, fun setting ↦ ?_⟩
  rw [← overlay.mem_settings_iff, List.mem_map_of_injective Setting.name_injective]

/-! ### Overlays on top of each other -/

/-- Two overlays as one: what the upper one sets, and what else the lower one sets. -/
def above (upper lower : Overlay) : Overlay where
  program := upper.program <|> lower.program
  arguments := upper.arguments <|> lower.arguments
  useTerminal := upper.useTerminal <|> lower.useTerminal
  timeout := upper.timeout <|> lower.timeout
  firstToken := upper.firstToken <|> lower.firstToken
  autoUpdate := upper.autoUpdate <|> lower.autoUpdate
  maxElements := upper.maxElements <|> lower.maxElements
  logLevel := upper.logLevel <|> lower.logLevel
  logFile := upper.logFile <|> lower.logFile

/-- A setting has the value of the upper layer, and where that gives none the one of the lower. -/
theorem value?_above (upper lower : Overlay) (setting : Setting) :
    (upper.above lower).value? setting = (upper.value? setting <|> lower.value? setting) := by
  cases setting with
  | logFile => cases hfile : upper.logFile <;> simp [above, value?, hfile]
  | _ => rfl

/-- Two layers one after the other are one layer, the second above the first. -/
theorem apply_apply (upper lower : Overlay) (config : Config) :
    (upper.apply (lower.apply config)).toConfig = ((upper.above lower).apply config).toConfig := by
  refine Config.ext_value fun setting ↦ ?_
  rw [value_apply, value_apply, value_apply, value?_above]
  cases upper.value? setting <;> rfl

end Overlay

namespace Config

/-- A configuration with overlays put on top of it, the last one on top. -/
def under (config : Config) (overlays : List Overlay) : Config :=
  overlays.foldl (fun config overlay ↦ (overlay.apply config).toConfig) config

/-- Lower layers apply before upper ones. -/
theorem under_append (config : Config) (lower upper : List Overlay) :
    config.under (lower ++ upper) = (config.under lower).under upper :=
  List.foldl_append

/-- The last overlay that sets a setting has the say. -/
theorem value_under (config : Config) (overlays : List Overlay) (setting : Setting) :
    (config.under overlays).value setting =
      ((overlays.filterMap (·.value? setting)).getLast?).getD (config.value setting) := by
  induction overlays using List.reverseRecOn with
  | nil => rfl
  | append_singleton lower upper ih =>
    rw [under_append, List.filterMap_append, List.getLast?_append]
    show (upper.apply (config.under lower)).value setting = _
    rw [Overlay.value_apply, ih]
    cases hset : upper.value? setting <;> simp [hset]

/-! ### The rules -/

/-- What is asked of a configuration: a program whose name is not blank, some time to wait, and a
bounded number of elements, at least one. -/
structure Usable (config : Config) : Prop where
  program : ¬Text.isBlank config.program
  timeout : 0 < config.timeout
  maxElements : 1 ≤ config.maxElements ∧ config.maxElements ≤ 100000

/-- Nothing is violated exactly by usable configurations. -/
theorem violations_eq_nil_iff {config : Config} : config.violations = [] ↔ config.Usable := by
  have hrules : config.violations = [] ↔ ¬Text.isBlank config.program ∧ config.timeout ≠ 0 ∧
      ¬(config.maxElements = 0 ∨ elementLimit < config.maxElements) := by
    unfold violations
    split_ifs <;> simp_all
  rw [hrules, not_or, Nat.not_lt]
  constructor
  · rintro ⟨hprogram, htimeout, hleast, hmost⟩
    exact ⟨hprogram, Nat.pos_of_ne_zero htimeout, Nat.pos_of_ne_zero hleast, hmost⟩
  · rintro ⟨hprogram, htimeout, hleast, hmost⟩
    exact ⟨hprogram, Nat.ne_of_gt htimeout, Nat.ne_of_gt hleast, hmost⟩

/-- Validation accepts usable configurations, and returns them as they are. -/
theorem validated_eq_ok_iff {config config' : Config} :
    config.validated = .ok config' ↔ config = config' ∧ config.Usable := by
  rw [← violations_eq_nil_iff]
  unfold validated
  cases config.violations with
  | nil => simp
  | cons first others => simp

/-! ### Texts as layers -/

namespace Reader

variable {reader : Reader} {tree after : FileTree} {config config' : Config} {path : Path}
  {text : String}

/-- A text with nothing but comments and blank lines sets nothing: if it is read at all, the overlay
holds nothing. -/
def IgnoresComments (reader : Reader) : Prop :=
  ∀ text overlay, ¬HasContent text → reader.overlay? text = some overlay → overlay = .empty

/-- Whether texts are layers: those with content hold overlays. -/
def AreLayers (reader : Reader) (texts : List String) : Prop :=
  ∀ text ∈ texts, HasContent text → ∃ overlay, reader.overlay? text = some overlay

/-- The overlays that texts hold, one without content included. -/
def overlaysIn (reader : Reader) (texts : List String) : List Overlay :=
  texts.filterMap reader.overlay?

/-- Texts are read one by one, in order. -/
theorem overlaysIn_cons (reader : Reader) (text : String) (texts : List String) :
    reader.overlaysIn (text :: texts) = reader.overlaysIn [text] ++ reader.overlaysIn texts := by
  rw [← List.singleton_append, overlaysIn, List.filterMap_append]
  rfl

/-- Adding a layer puts the overlay that is read from the text on top. -/
theorem addLayer_eq_ok_iff : reader.addLayer config text = .ok config' ↔
    ∃ overlay, reader.overlay? text = some overlay ∧ (overlay.apply config).toConfig = config' := by
  unfold addLayer
  cases reader.overlay? text <;> simp

/-- A text without content changes nothing, whether it is read or not. -/
theorem under_of_not_hasContent (hplain : reader.IgnoresComments) (h : ¬HasContent text) :
    config.under (reader.overlaysIn [text]) = config := by
  unfold overlaysIn
  cases hread : reader.overlay? text with
  | none => rw [List.filterMap_cons_none hread, List.filterMap_nil, under, List.foldl_nil]
  | some overlay =>
    rw [List.filterMap_cons_some hread, List.filterMap_nil, hplain text overlay h hread]
    rfl

/-- What a file comes to on top of a configuration. It makes no difference that a file without
content is not read. -/
theorem addFile_eq_ok_iff (hplain : reader.IgnoresComments) :
    reader.addFile tree config path = .ok config' ↔ ∃ text, tree.read? path = some text ∧
      reader.AreLayers [text] ∧ config.under (reader.overlaysIn [text]) = config' := by
  unfold addFile
  cases tree.read? path with
  | none => exact ⟨nofun, nofun⟩
  | some text =>
    simp only [Option.some.injEq, exists_eq_left', AreLayers, List.forall_mem_singleton]
    by_cases hcontent : HasContent text
    · rw [if_pos (hasContent_iff.mpr hcontent), addLayer_eq_ok_iff]
      unfold overlaysIn
      cases hread : reader.overlay? text <;> simp [under, hcontent, hread]
    · rw [if_neg (mt hasContent_iff.mp hcontent), under_of_not_hasContent hplain hcontent,
        Except.ok.injEq]
      simp [hcontent]

/-- Files add their layers one after the other, if each can be read and is a layer. By induction on
the files. -/
theorem foldlM_addFile_eq_ok_iff (hplain : reader.IgnoresComments) {paths : List Path} :
    paths.foldlM (reader.addFile tree) config = .ok config' ↔ ∃ texts,
      paths.mapM tree.read? = some texts ∧ reader.AreLayers texts ∧
        config.under (reader.overlaysIn texts) = config' := by
  induction paths generalizing config with
  | nil => simp [AreLayers, overlaysIn, under, pure, Except.pure]
  | cons path rest ih =>
    have hfirst : (path :: rest).foldlM (reader.addFile tree) config = .ok config' ↔
        ∃ config₁, reader.addFile tree config path = .ok config₁ ∧
          rest.foldlM (reader.addFile tree) config₁ = .ok config' := by
      rw [List.foldlM_cons]
      cases reader.addFile tree config path <;> simp [bind, Except.bind]
    rw [hfirst]
    simp only [addFile_eq_ok_iff hplain, ih]
    constructor
    · rintro ⟨_, ⟨text, hread, hlayer, rfl⟩, texts, hreads, hlayers, rfl⟩
      refine ⟨text :: texts, by simp [hread, hreads], ?_, by rw [overlaysIn_cons, under_append]⟩
      exact List.forall_mem_cons.mpr ⟨List.forall_mem_singleton.mp hlayer, hlayers⟩
    · rintro ⟨texts, hreads, hlayers, rfl⟩
      obtain ⟨text, others, hread, hothers, rfl⟩ : ∃ text others, tree.read? path = some text ∧
          rest.mapM tree.read? = some others ∧ texts = text :: others := by
        rw [List.mapM_cons] at hreads
        obtain ⟨text, hread, hreads⟩ := Option.bind_eq_some_iff.mp hreads
        obtain ⟨others, hothers, htexts⟩ := Option.bind_eq_some_iff.mp hreads
        exact ⟨text, others, hread, hothers, (Option.some.inj htexts).symm⟩
      obtain ⟨hlayer, hlayers⟩ := List.forall_mem_cons.mp hlayers
      exact ⟨_, ⟨text, hread, List.forall_mem_singleton.mpr hlayer, rfl⟩, others, hothers, hlayers,
        by rw [overlaysIn_cons reader text others, under_append]⟩

/-- Loading succeeds if every file can be read and holds a layer, and what comes of all layers obeys
the rules. -/
theorem ofFiles_eq_ok_iff (hplain : reader.IgnoresComments) {paths : List Path} :
    reader.ofFiles tree paths = .ok config ↔ ∃ texts, paths.mapM tree.read? = some texts ∧
      reader.AreLayers texts ∧ standard.under (reader.overlaysIn texts) = config ∧
        config.Usable := by
  have hfold : reader.ofFiles tree paths = .ok config ↔ ∃ config₁,
      paths.foldlM (reader.addFile tree) standard = .ok config₁ ∧
        config₁.validated = .ok config := by
    unfold ofFiles
    cases paths.foldlM (reader.addFile tree) standard <;> simp [bind, Except.bind]
  rw [hfold]
  simp only [foldlM_addFile_eq_ok_iff hplain, validated_eq_ok_iff]
  constructor
  · rintro ⟨_, ⟨texts, hreads, hlayers, hunder⟩, rfl, husable⟩
    exact ⟨texts, hreads, hlayers, hunder, husable⟩
  · rintro ⟨texts, hreads, hlayers, hunder, husable⟩
    exact ⟨config, ⟨texts, hreads, hlayers, hunder⟩, rfl, husable⟩

/-- Loading one file is loading from a list of one, but the file must be there. -/
theorem loadFile_eq_ok_iff : reader.loadFile tree path = .ok config ↔
    tree.contains path ∧ reader.ofFiles tree [path] = .ok config := by
  unfold loadFile
  cases tree.contains path <;> simp

/-- A text is loaded over the standard configuration and validated. -/
theorem ofText_eq_ok_iff : reader.ofText text = .ok config ↔
    ∃ overlay, reader.overlay? text = some overlay ∧
      (overlay.apply standard).toConfig = config ∧ config.Usable := by
  have hlayer : reader.ofText text = .ok config ↔ ∃ config₁,
      reader.addLayer standard text = .ok config₁ ∧ config₁.validated = .ok config := by
    unfold ofText
    cases reader.addLayer standard text <;> simp [bind, Except.bind]
  rw [hlayer]
  simp only [addLayer_eq_ok_iff, validated_eq_ok_iff]
  constructor
  · rintro ⟨_, ⟨overlay, hread, happly⟩, rfl, husable⟩
    exact ⟨overlay, hread, happly, husable⟩
  · rintro ⟨overlay, hread, happly, husable⟩
    exact ⟨config, ⟨overlay, hread, happly⟩, rfl, husable⟩

end Reader

/-! ### The file of the user -/

/-- What is there once the file of the user is: all that was there before, this file, and no other
new file. A new file of the user has the initial text. -/
structure Prepared (tree : FileTree) (directory : Path) (after : FileTree) : Prop where
  kept : ∀ path node, tree.get? path = some node → after.get? path = some node
  present : after.contains (directory.append [fileName])
  file : ∀ place content, after.nodeAt? place = some (.file content) →
    tree.nodeAt? place = some (.file content) ∨
      after.locate? (directory.append [fileName]) = some place ∧ content = initialText

/-- Ensuring the file of the user leaves it prepared. -/
theorem prepared_of_ensureUserFile {tree after : FileTree} {directory : Path}
    (h : ensureUserFile tree directory = (.ok (), after)) : Prepared tree directory after := by
  have hdirectories := FileTree.makeDirectories_adds directory tree
  unfold ensureUserFile at h
  split at h
  · exact absurd (Prod.mk.inj h).1 nofun
  · rename_i made hmade
    rw [hmade] at hdirectories
    dsimp only at h
    split_ifs at h with hthere
    · obtain rfl : made = after := (Prod.mk.inj h).2
      exact ⟨fun _ _ ↦ hdirectories.get?_eq, hthere, fun place content hcontent ↦
        .inl ((hdirectories.file place content hcontent).resolve_right id)⟩
    · cases hwrite : made.write? (directory.append [fileName]) initialText with
      | none =>
        rw [hwrite] at h
        exact absurd (Prod.mk.inj h).1 nofun
      | some written =>
        rw [hwrite] at h
        obtain rfl : written = after := (Prod.mk.inj h).2
        have hfree : made.get? (directory.append [fileName]) = none :=
          Option.not_isSome_iff_eq_none.mp hthere
        obtain ⟨hfile, hadds⟩ := FileTree.write?_adds hfree hwrite
        have hall := hdirectories.trans hadds
        refine ⟨fun _ _ ↦ hall.get?_eq, Option.isSome_of_mem hfile, fun place content hcontent ↦ ?_⟩
        exact (hall.file place content hcontent).imp_right (Or.resolve_left · id)

/-- The file of the user and that of the project, if there is one, as the layers they are. -/
def layerFiles (tree : FileTree) (directory : Path) (project : Option Path) : List Path :=
  [directory.append [fileName]] ++ (project >>= projectFile? tree).toList

/-- Loading is loading the files of the user and of the project once that of the user is there. -/
theorem Reader.load_eq_ok_iff {reader : Reader} {tree after : FileTree} {directory : Path}
    {project : Option Path} {config : Config} :
    reader.load tree directory project = (.ok config, after) ↔
      ensureUserFile tree directory = (.ok (), after) ∧
        reader.ofFiles after (layerFiles after directory project) = .ok config := by
  unfold load layerFiles
  obtain ⟨result, tree₁⟩ := ensureUserFile tree directory
  cases result with
  | error e => simp
  | ok _ =>
    simp only [Prod.mk.injEq, true_and]
    constructor
    · rintro ⟨hconfig, rfl⟩
      exact ⟨rfl, hconfig⟩
    · rintro ⟨rfl, hconfig⟩
      exact ⟨hconfig, rfl⟩

/-! ### Loading as a whole -/

/-- What layered loading comes to, whatever reads the texts, as long as a text with nothing but
comments and blank lines sets nothing. The last layer that sets a setting has the say; layers can be
joined; putting an overlay on top tells the names of what the overlay sets, each of them once; and a
configuration is loaded if all layers with content are overlays and what they come to together is
usable. No layer by itself has to be usable, and what is loaded always is. A file of the user that
was missing is there afterwards, and it sets nothing. -/
theorem layered_loading (reader : Reader) (hplain : reader.IgnoresComments) :
    (∀ (overlays : List Overlay) (setting : Setting), (standard.under overlays).value setting =
      ((overlays.filterMap (·.value? setting)).getLast?).getD (standard.value setting)) ∧
    (∀ (upper lower : Overlay) (config : Config),
      (upper.apply (lower.apply config)).toConfig =
        ((upper.above lower).apply config).toConfig) ∧
    (∀ (upper lower : Overlay) (setting : Setting),
      (upper.above lower).value? setting = (upper.value? setting <|> lower.value? setting)) ∧
    (∀ (overlay : Overlay) (config : Config), (overlay.apply config).names.Nodup ∧
      (overlay.apply config).names.Sublist (Setting.all.map Setting.name) ∧
      ∀ setting, setting.name ∈ (overlay.apply config).names ↔
        (overlay.value? setting).isSome) ∧
    (∀ (tree : FileTree) (paths : List Path) (config : Config),
      reader.ofFiles tree paths = .ok config ↔ ∃ texts, paths.mapM tree.read? = some texts ∧
        reader.AreLayers texts ∧ standard.under (reader.overlaysIn texts) = config ∧
          config.Usable) ∧
    (∀ (tree : FileTree) (path : Path) (config : Config),
      reader.loadFile tree path = .ok config ↔
        tree.contains path ∧ reader.ofFiles tree [path] = .ok config) ∧
    (∀ (tree after : FileTree) (directory : Path) (project : Option Path) (config : Config),
      reader.load tree directory project = (.ok config, after) ↔
        ensureUserFile tree directory = (.ok (), after) ∧
          reader.ofFiles after (layerFiles after directory project) = .ok config) ∧
    (∀ (tree after : FileTree) (directory : Path),
      ensureUserFile tree directory = (.ok (), after) → Prepared tree directory after) ∧
    ¬HasContent initialText ∧
    (∀ (text : String) (config : Config), reader.ofText text = .ok config ↔
      ∃ overlay, reader.overlay? text = some overlay ∧
        (overlay.apply standard).toConfig = config ∧ config.Usable) :=
  ⟨value_under standard, Overlay.apply_apply, Overlay.value?_above, Overlay.names_apply_exact,
    fun _ _ _ ↦ Reader.ofFiles_eq_ok_iff hplain, fun _ _ _ ↦ Reader.loadFile_eq_ok_iff,
    fun _ _ _ _ _ ↦ Reader.load_eq_ok_iff, fun _ _ _ ↦ prepared_of_ensureUserFile,
    not_hasContent_initialText, fun _ _ ↦ Reader.ofText_eq_ok_iff⟩

/-- A layer with a timeout of nothing, which is not usable. -/
def brokenLayer : String := "[session]\ncommand_timeout_ms = 0\n"

/-- A layer with another timeout. -/
def mendingLayer : String := "# patience\n\n[session]\ncommand_timeout_ms = 7\n"

/-- Reads two layers and the text of a new file of the user. -/
def mendingReader : Reader where
  overlay? text :=
    if text = brokenLayer then some { Overlay.empty with timeout := some 0 }
    else if text = mendingLayer then some { Overlay.empty with timeout := some 7 }
    else if text = initialText then some .empty
    else none

/-- A text without content sets nothing by the mending reader. -/
theorem mendingReader_ignoresComments : mendingReader.IgnoresComments := by
  intro text overlay hcontent hread
  rw [← hasContent_iff] at hcontent
  simp only [mendingReader] at hread
  split_ifs at hread with hbroken hmending hinitial
  · rw [hbroken] at hcontent
    exact absurd (by decide +kernel) hcontent
  · rw [hmending] at hcontent
    exact absurd (by decide +kernel) hcontent
  · exact (Option.some.inj hread).symm

/-- A user with the one layer and a project with the other. -/
def layeredTree : FileTree :=
  ⟨[(["home"], .directory), (["home", "config.toml"], .file brokenLayer), (["work"], .directory),
    (["work", ".migdb"], .directory), (["work", ".migdb", "config.toml"], .file mendingLayer)]⟩

/-- A timeout of nothing is accepted in the file of the user where the project sets another one. -/
theorem layered_loading_of_mended : mendingReader.IgnoresComments ∧
    mendingReader.load layeredTree ⟨["home"]⟩ (some ⟨["work"]⟩) =
      (.ok { standard with timeout := 7 }, layeredTree) := by
  obtain ⟨-, -, -, -, hfiles, -, hload, -⟩ :=
    layered_loading mendingReader mendingReader_ignoresComments
  have hlayers : mendingReader.AreLayers [brokenLayer, mendingLayer] :=
    List.forall_mem_cons.mpr ⟨fun _ ↦ ⟨_, rfl⟩, List.forall_mem_singleton.mpr fun _ ↦ ⟨_, rfl⟩⟩
  have husable : Usable { standard with timeout := 7 } := ⟨by decide, by decide, by decide⟩
  exact ⟨mendingReader_ignoresComments, (hload layeredTree layeredTree _ _ _).mpr ⟨rfl,
    (hfiles layeredTree _ _).mpr ⟨[brokenLayer, mendingLayer], rfl, hlayers, rfl, husable⟩⟩⟩

end Config

end DebugLink
