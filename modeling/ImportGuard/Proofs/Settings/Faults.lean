import ImportGuard.CommandLine.Run
import Mathlib.Logic.Basic

/-!
# Faults of a configuration

Loading settings from a configuration file is meant to give settings, or to say what is wrong with the
file.  Values that do not fit are always told so, and so is a file that cannot be read, or a text that is
malformed or no mapping.  **Some faults get past that** (`Escapes`): bytes that are no text, in the file or
in the file of variables, a key that is no text, a file of variables that cannot be read, and a list of
folders in a variable that is no JSON.  There are no others, and each of them shows as itself
(`ofFile_eq_error_iff_escapes`), whatever the readers of the formats are.

A run of the program that cannot load its settings ends with code one in any case.  It does so with a
message exactly if the fault is one that is told, and if the terminal can show its words.
-/

namespace ImportGuard

def LoadError.isConfig : LoadError → Bool
  | .config _ => true
  | .invalid _ | .unparsable _ | .badKey | .undecodable | .unreadable _ => false

theorem LoadError.isConfig_iff {error : LoadError} :
    error.isConfig = true ↔ ∃ e, error = .config e := by
  cases error with
  | config e => exact iff_of_true rfl ⟨e, rfl⟩
  | _ => exact iff_of_false (by simp [isConfig]) (by simp)

namespace Settings

/-! ### Values in a document -/

/-- A document gives values: none if it says nothing, or else those of a mapping whose keys are all
texts. -/
def Gives (document : Value) (given : List (Value × Value)) : Prop :=
  document.isVoid = true ∧ given = [] ∨
    document.isVoid = false ∧ document = .mapping given ∧
      ∀ entry ∈ given, ∃ name, entry.1 = .text name

variable {path : Path} {document : Value} {given : List (Value × Value)}

theorem valuesOf_of_gives (h : Gives document given) : valuesOf path document = .ok given := by
  unfold valuesOf
  rcases h with ⟨hvoid, rfl⟩ | ⟨hvoid, rfl, hkeys⟩
  · rw [if_pos hvoid]
  · simp only [hvoid, Bool.false_eq_true, if_false]
    refine if_pos (List.all_eq_true.2 fun entry hentry => ?_)
    obtain ⟨name, hname⟩ := hkeys entry hentry
    rw [hname]

theorem valuesOf_of_key {entries : List (Value × Value)} {entry : Value × Value}
    (hmem : entry ∈ entries) (hkey : ∀ name, entry.1 ≠ .text name) :
    valuesOf path (.mapping entries) = .error .badKey := by
  have hvoid : (Value.mapping entries).isVoid = false := by
    simp [Value.isVoid, List.ne_nil_of_mem hmem]
  unfold valuesOf
  simp only [hvoid, Bool.false_eq_true, if_false]
  refine if_neg fun hall => ?_
  have hentry := List.all_eq_true.1 hall entry hmem
  cases hname : entry.1 with
  | text name => exact hkey name hname
  | _ => simp [hname] at hentry

/-- **What a document can give**: values, a key that is no text, or an error that is told. -/
theorem valuesOf_cases (path : Path) (document : Value) :
    (∃ given, Gives document given) ∨
      (∃ entries, document = .mapping entries ∧
        ∃ entry ∈ entries, ∀ name, entry.1 ≠ .text name) ∨
      ∃ e, valuesOf path document = .error (.config e) := by
  cases hvoid : document.isVoid with
  | true => exact Or.inl ⟨[], Or.inl ⟨hvoid, rfl⟩⟩
  | false =>
    by_cases hmapping : ∃ entries, document = .mapping entries
    · obtain ⟨entries, rfl⟩ := hmapping
      by_cases hkeys : ∀ entry ∈ entries, ∃ name, entry.1 = .text name
      · exact Or.inl ⟨entries, Or.inr ⟨hvoid, rfl, hkeys⟩⟩
      · simp only [not_forall, not_exists, exists_prop] at hkeys
        exact Or.inr (Or.inl ⟨entries, rfl, hkeys⟩)
    · refine Or.inr (Or.inr ⟨.notMapping path, ?_⟩)
      unfold valuesOf
      simp only [hvoid, Bool.false_eq_true, if_false]
      split
      · rename_i entries
        exact absurd ⟨entries, rfl⟩ hmapping
      · rfl

/-! ### Variables -/

variable {readers : Readers}

/-- A source of variables has a list of folders that is no JSON. -/
def Garbled (readers : Readers) (bindings : List (String × Option String)) : Prop :=
  ∃ text, lastVariable bindings .excludeDirs = some text ∧ readers.json text = none

theorem variableValue_of_garbled (source : VariableSource)
    {bindings : List (String × Option String)} (h : Garbled readers bindings) :
    variableValue readers source bindings .excludeDirs = .error (.unparsable source) := by
  obtain ⟨text, htext, hjson⟩ := h
  simp only [variableValue, htext, hjson]

theorem exists_variableValue_of_not_garbled (source : VariableSource)
    {bindings : List (String × Option String)} (h : ¬ Garbled readers bindings) :
    ∃ value, variableValue readers source bindings .excludeDirs = .ok value := by
  unfold variableValue
  cases htext : lastVariable bindings .excludeDirs with
  | none => exact ⟨none, rfl⟩
  | some text =>
    cases hjson : readers.json text with
    | none => exact absurd ⟨text, htext, hjson⟩ h
    | some value =>
      simp only [hjson]
      split
      · rename_i heq
        exact absurd heq (by simp)
      · exact ⟨none, rfl⟩
      · exact ⟨_, rfl⟩

section Load

variable {environment dotEnv : List (String × Option String)}

theorem load_of_garbled_environment (h : Garbled readers environment) :
    load readers given environment dotEnv = .error (.unparsable .environment) := by
  simp only [load, variableValue_of_garbled .environment h]

theorem load_of_garbled_dotEnv (henvironment : ¬ Garbled readers environment)
    (h : Garbled readers dotEnv) :
    load readers given environment dotEnv = .error (.unparsable .dotEnv) := by
  obtain ⟨value, hvalue⟩ := exists_variableValue_of_not_garbled .environment henvironment
  simp only [load, hvalue, variableValue_of_garbled .dotEnv h]

/-- With lists that can be read, only values that do not fit are at fault. -/
theorem load_of_not_garbled (given : List (Value × Value))
    (henvironment : ¬ Garbled readers environment) (hdotEnv : ¬ Garbled readers dotEnv) :
    load readers given environment dotEnv =
      (readers.settings given (variableValues readers .environment environment)
        (variableValues readers .dotEnv dotEnv)).mapError .invalid := by
  obtain ⟨value, hvalue⟩ := exists_variableValue_of_not_garbled .environment henvironment
  obtain ⟨value', hvalue'⟩ := exists_variableValue_of_not_garbled .dotEnv hdotEnv
  simp only [load, hvalue, hvalue']
  cases readers.settings given (variableValues readers .environment environment)
      (variableValues readers .dotEnv dotEnv) with
  | ok settings => rfl
  | error rejection => rfl

end Load

/-! ### Faults that are not told -/

variable {workspace : Workspace} {environment : List (String × String)}

def Holds (readers : Readers) (workspace : Workspace) (path : Path) (document : Value) : Prop :=
  ∃ content text, workspace.read path = .ok content ∧ Utf8.decode? content = some text ∧
    readers.document text = .ok document

/-- A file holds a document that gives values, and there are variables beside it. -/
structure Supplied (readers : Readers) (workspace : Workspace) (path : Path)
    (given : List (Value × Value)) (bindings : List (String × Option String)) : Prop where
  gives : ∃ document, Holds readers workspace path document ∧ Gives document given
  dotEnv : dotEnvOf readers workspace = .ok bindings

/-- **The faults that get past the account of a configuration file.** -/
inductive Escapes (readers : Readers) (workspace : Workspace) (environment : List (String × String))
    (path : Path) : LoadError → Prop
  /-- The file is no text. -/
  | content {content : List UInt8} (hread : workspace.read path = .ok content)
      (h : Utf8.decode? content = none) : Escapes readers workspace environment path .undecodable
  /-- The file is a mapping with a key that is no text. -/
  | key {entries : List (Value × Value)} {entry : Value × Value}
      (hholds : Holds readers workspace path (.mapping entries)) (hmem : entry ∈ entries)
      (hkey : ∀ name, entry.1 ≠ .text name) : Escapes readers workspace environment path .badKey
  /-- The file gives values, and the file of variables cannot be read. -/
  | dotEnvAccess {document : Value} {given : List (Value × Value)} {why : AccessError}
      (hholds : Holds readers workspace path document) (hgives : Gives document given)
      (hfile : workspace.isFile dotEnvPath = true) (h : workspace.read dotEnvPath = .error why) :
      Escapes readers workspace environment path (.unreadable why)
  /-- The file gives values, and the file of variables is no text. -/
  | dotEnvContent {document : Value} {given : List (Value × Value)} {bytes : List UInt8}
      (hholds : Holds readers workspace path document) (hgives : Gives document given)
      (hread : workspace.read dotEnvPath = .ok bytes) (h : Utf8.decode? bytes = none) :
      Escapes readers workspace environment path .undecodable
  /-- The file gives values, and the environment has a list of folders that is no JSON. -/
  | environmentList {given : List (Value × Value)} {bindings : List (String × Option String)}
      (hsupplied : Supplied readers workspace path given bindings)
      (h : Garbled readers (bindingsOf environment)) :
      Escapes readers workspace environment path (.unparsable .environment)
  /-- The file gives values, and the file of variables has a list of folders that is no JSON, while
  that of the environment is none to stumble over first. -/
  | dotEnvList {given : List (Value × Value)} {bindings : List (String × Option String)}
      (hsupplied : Supplied readers workspace path given bindings)
      (henvironment : ¬ Garbled readers (bindingsOf environment)) (h : Garbled readers bindings) :
      Escapes readers workspace environment path (.unparsable .dotEnv)

/-- A file gives settings: no list of folders is in the way, and the values fit. -/
def Loads (readers : Readers) (workspace : Workspace) (environment : List (String × String))
    (path : Path) (settings : Settings) : Prop :=
  ∃ given bindings, Supplied readers workspace path given bindings ∧
    ¬ Garbled readers (bindingsOf environment) ∧ ¬ Garbled readers bindings ∧
    readers.settings given (variableValues readers .environment (bindingsOf environment))
      (variableValues readers .dotEnv bindings) = .ok settings

theorem Escapes.not_isConfig {error : LoadError}
    (h : Escapes readers workspace environment path error) : error.isConfig = false := by
  cases h <;> rfl

theorem isFile_of_read {content : List UInt8} (h : workspace.read path = .ok content) :
    workspace.isFile path = true := by
  unfold Workspace.read at h
  unfold Workspace.isFile Workspace.get?
  cases hentry : workspace.lookup path with
  | error why => simp [hentry] at h
  | ok entry =>
    cases entry with
    | file number => rfl
    | folder members => simp [hentry] at h

/-- What a file of variables can give: none of its own, faults, or bindings. -/
theorem dotEnvOf_cases (readers : Readers) (workspace : Workspace) :
    (∃ why, workspace.isFile dotEnvPath = true ∧ workspace.read dotEnvPath = .error why) ∨
      (∃ bytes, workspace.read dotEnvPath = .ok bytes ∧ Utf8.decode? bytes = none) ∨
      ∃ bindings, dotEnvOf readers workspace = .ok bindings := by
  unfold dotEnvOf
  cases hfile : workspace.isFile dotEnvPath with
  | false => exact Or.inr (Or.inr ⟨[], rfl⟩)
  | true =>
    cases workspace.read dotEnvPath with
    | error why => exact Or.inl ⟨why, rfl, rfl⟩
    | ok bytes =>
      cases htext : Utf8.decode? bytes with
      | none => exact Or.inr (Or.inl ⟨bytes, rfl, htext⟩)
      | some text => exact Or.inr (Or.inr ⟨_, by simp only [htext, if_true]; rfl⟩)

/-- Of a file that gives values, all depends on what loading makes of them. -/
theorem ofFile_of_gives (hholds : Holds readers workspace path document)
    (hgives : Gives document given) :
    ofFile readers workspace environment path =
      blame path (loadIn readers workspace environment given) := by
  obtain ⟨content, text, hread, htext, hdocument⟩ := hholds
  simp only [ofFile, hread, htext, ofText, hdocument, valuesOf_of_gives hgives]

theorem ofFile_of_supplied {bindings : List (String × Option String)}
    (h : Supplied readers workspace path given bindings) :
    ofFile readers workspace environment path =
      blame path (load readers given (bindingsOf environment) bindings) := by
  obtain ⟨⟨document, hholds, hgives⟩, hbindings⟩ := h
  rw [ofFile_of_gives hholds hgives, loadIn, hbindings]

/-- Where the lists of folders can be read, complaints are put down to the file. -/
theorem ofFile_of_not_garbled {bindings : List (String × Option String)}
    (h : Supplied readers workspace path given bindings)
    (henvironment : ¬ Garbled readers (bindingsOf environment))
    (hdotEnv : ¬ Garbled readers bindings) :
    ofFile readers workspace environment path =
      (readers.settings given (variableValues readers .environment (bindingsOf environment))
        (variableValues readers .dotEnv bindings)).mapError fun rejection =>
          .config (.invalid path rejection) := by
  rw [ofFile_of_supplied h, load_of_not_garbled given henvironment hdotEnv]
  cases readers.settings given (variableValues readers .environment (bindingsOf environment))
      (variableValues readers .dotEnv bindings) with
  | ok settings => rfl
  | error rejection => rfl

theorem Loads.ofFile_eq {settings : Settings}
    (h : Loads readers workspace environment path settings) :
    ofFile readers workspace environment path = .ok settings := by
  obtain ⟨given, bindings, hsupplied, henvironment, hdotEnv, hsettings⟩ := h
  rw [ofFile_of_not_garbled hsupplied henvironment hdotEnv, hsettings]
  rfl

/-- A fault that escapes shows as itself. -/
theorem Escapes.ofFile_eq {error : LoadError}
    (h : Escapes readers workspace environment path error) :
    ofFile readers workspace environment path = .error error := by
  cases h with
  | content hread h => simp only [ofFile, hread, h]
  | key hholds hmem hkey =>
    obtain ⟨content, text, hread, htext, hdocument⟩ := hholds
    simp only [ofFile, hread, htext, ofText, hdocument, valuesOf_of_key hmem hkey]
  | dotEnvAccess hholds hgives hfile h =>
    rw [ofFile_of_gives hholds hgives, loadIn, dotEnvOf, if_pos hfile, h]
    rfl
  | dotEnvContent hholds hgives hread h =>
    have hdotEnv : dotEnvOf readers workspace = .error .undecodable := by
      simp only [dotEnvOf, isFile_of_read hread, if_true, hread, h]
    rw [ofFile_of_gives hholds hgives, loadIn, hdotEnv]
    rfl
  | environmentList hsupplied h =>
    rw [ofFile_of_supplied hsupplied, load_of_garbled_environment h]
    rfl
  | dotEnvList hsupplied henvironment h =>
    rw [ofFile_of_supplied hsupplied, load_of_garbled_dotEnv henvironment h]
    rfl

/-- **A fault escapes, or there are settings, or an error that is told.** -/
theorem escapes_or_told (readers : Readers) (workspace : Workspace)
    (environment : List (String × String)) (path : Path) :
    (∃ error, Escapes readers workspace environment path error) ∨
      (∃ settings, Loads readers workspace environment path settings) ∨
      ∃ e, ofFile readers workspace environment path = .error (.config e) := by
  cases hread : workspace.read path with
  | error why =>
    refine Or.inr (Or.inr ⟨.unloadable path (why.message ++ ": " ++ shown path.render), ?_⟩)
    simp only [ofFile, hread]
  | ok content =>
    cases htext : Utf8.decode? content with
    | none => exact Or.inl ⟨_, .content hread htext⟩
    | some text =>
      cases hdocument : readers.document text with
      | error account =>
        refine Or.inr (Or.inr ⟨.unloadable path account, ?_⟩)
        simp only [ofFile, hread, htext, ofText, hdocument]
      | ok document =>
        have hholds : Holds readers workspace path document :=
          ⟨content, text, hread, htext, hdocument⟩
        rcases valuesOf_cases path document with ⟨given, hgives⟩ |
          ⟨entries, rfl, entry, hmem, hkey⟩ | ⟨e, hvalues⟩
        · rcases dotEnvOf_cases readers workspace with ⟨why, hfile, h⟩ | ⟨bytes, hbytes, h⟩ |
            ⟨bindings, hbindings⟩
          · exact Or.inl ⟨_, .dotEnvAccess hholds hgives hfile h⟩
          · exact Or.inl ⟨_, .dotEnvContent hholds hgives hbytes h⟩
          · have hsupplied : Supplied readers workspace path given bindings :=
              ⟨⟨document, hholds, hgives⟩, hbindings⟩
            by_cases henvironment : Garbled readers (bindingsOf environment)
            · exact Or.inl ⟨_, .environmentList hsupplied henvironment⟩
            · by_cases hdotEnv : Garbled readers bindings
              · exact Or.inl ⟨_, .dotEnvList hsupplied henvironment hdotEnv⟩
              · refine Or.inr ?_
                cases hsettings : readers.settings given
                    (variableValues readers .environment (bindingsOf environment))
                    (variableValues readers .dotEnv bindings) with
                | ok settings =>
                  exact Or.inl ⟨settings, given, bindings, hsupplied, henvironment, hdotEnv,
                    hsettings⟩
                | error rejection =>
                  refine Or.inr ⟨.invalid path rejection, ?_⟩
                  rw [ofFile_of_not_garbled hsupplied henvironment hdotEnv, hsettings]
                  rfl
        · exact Or.inl ⟨_, .key hholds hmem hkey⟩
        · refine Or.inr (Or.inr ⟨e, ?_⟩)
          simp only [ofFile, hread, htext, ofText, hdocument, hvalues]

/-- The errors that are not about the file are the faults that escape. -/
theorem ofFile_other_error_iff (readers : Readers) (workspace : Workspace)
    (environment : List (String × String)) (path : Path) (error : LoadError) :
    (ofFile readers workspace environment path = .error error ∧ error.isConfig = false) ↔
      Escapes readers workspace environment path error := by
  refine ⟨fun ⟨hload, hother⟩ => ?_, fun h => ⟨h.ofFile_eq, h.not_isConfig⟩⟩
  rcases escapes_or_told readers workspace environment path with ⟨error', h⟩ | ⟨settings, h⟩ |
    ⟨e, hconfig⟩
  · obtain rfl : error' = error := Except.error.inj (h.ofFile_eq.symm.trans hload)
    exact h
  · exact absurd (h.ofFile_eq.symm.trans hload) (by simp)
  · obtain rfl : .config e = error := Except.error.inj (hconfig.symm.trans hload)
    exact absurd hother (by simp [LoadError.isConfig])

theorem ofFile_eq_ok_iff (readers : Readers) (workspace : Workspace)
    (environment : List (String × String)) (path : Path) (settings : Settings) :
    ofFile readers workspace environment path = .ok settings ↔
      Loads readers workspace environment path settings := by
  refine ⟨fun hok => ?_, Loads.ofFile_eq⟩
  rcases escapes_or_told readers workspace environment path with ⟨error, h⟩ | ⟨settings', h⟩ |
    ⟨e, hconfig⟩
  · exact absurd (hok.symm.trans h.ofFile_eq) (by simp)
  · obtain rfl : settings' = settings := Except.ok.inj (h.ofFile_eq.symm.trans hok)
    exact h
  · exact absurd (hok.symm.trans hconfig) (by simp)

theorem loadFrom_of_isSome (readers : Readers) (environment : List (String × String))
    (h : (workspace.get? path).isSome = true) :
    loadFrom readers workspace environment (some path) =
      ofFile readers workspace environment path := by
  rw [loadFrom, if_pos h]

end Settings

/-! ### Runs that cannot load their settings -/

namespace CommandLine

variable {workspace : Workspace} {environment : List (String × String)} {options : Options}

theorem failWith_eq (services : Services) (outcome : Outcome) (h : outcome.crash = none) (message : String) :
    (failWith services outcome message).exitCode = 1 ∧
      (failWith services outcome message).crash =
        if (services.console (marked message)).isSome then none else some .markup := by
  unfold failWith
  cases services.console (marked message) with
  | none => exact ⟨rfl, rfl⟩
  | some text => exact ⟨rfl, h⟩

theorem run_eq_work (services : Services) {arguments : List String}
    (hoptions : Options.parse arguments = some options) (hquestion : options.question = none) :
    run services workspace environment arguments = work services workspace environment options := by
  simp only [run, hoptions, hquestion]

/-- **A run that cannot load its settings** ends with code one, crashes with the error if it is not
about the file, and otherwise ends with a message if the terminal can show it. -/
theorem work_of_load_error (services : Services) {error : LoadError}
    (h : Settings.loadFrom services.readers workspace environment
      (options.config.map Path.ofString) = .error error) :
    (work services workspace environment options).exitCode = 1 ∧
      ((work services workspace environment options).crash = some (.settings error) ↔
        error.isConfig = false) ∧
      ((work services workspace environment options).crash = some .markup ↔
        ∃ e, error = .config e ∧ services.console (marked e.message) = none) ∧
      ((work services workspace environment options).crash = none ↔
        ∃ e, error = .config e ∧ (services.console (marked e.message)).isSome = true) := by
  cases hconfig : error.isConfig with
  | true =>
    obtain ⟨e, rfl⟩ := LoadError.isConfig_iff.1 hconfig
    have hwork : work services workspace environment options =
        failWith services { exitCode := 1 } e.message := by
      simp only [work, h]
    obtain ⟨hcode, hcrash⟩ := failWith_eq services { exitCode := 1 } rfl e.message
    rw [hwork, hcode, hcrash]
    cases hshown : services.console (marked e.message) with
    | none => simp [hshown]
    | some text => simp [hshown]
  | false =>
    have hwork : work services workspace environment options =
        { exitCode := 1, crash := some (.settings error) } := by
      cases error with
      | config e => exact absurd hconfig (by simp [LoadError.isConfig])
      | invalid rejection => simp only [work, h]
      | unparsable source => simp only [work, h]
      | badKey => simp only [work, h]
      | undecodable => simp only [work, h]
      | unreadable why => simp only [work, h]
    rw [hwork]
    have hnot : ∀ e, error ≠ .config e := by
      rintro e rfl
      exact absurd hconfig (by simp [LoadError.isConfig])
    refine ⟨rfl, iff_of_true rfl rfl, iff_of_false (by simp) ?_, iff_of_false (by simp) ?_⟩
    · rintro ⟨e, heq, -⟩
      exact hnot e heq
    · rintro ⟨e, heq, -⟩
      exact hnot e heq

end CommandLine

namespace Settings

/-- **What a bad configuration file can lead to.**  Take a path where something is, any environment and
any file of variables, and any readers of the formats that settings are written in.  Loading the file
gives settings exactly if its document gives values, the lists of folders in the variables can be read,
and all values fit.  It gives settings or an error about the file, exactly if no fault escapes; and the
faults that escape are exactly the other errors that loading ends with.  A run of the program with that
file, if it cannot load its settings, ends with code one.  It crashes with the fault if one escapes.  If
the error is about the file, the terminal is to show all of its words: the run ends with a message if it
can, and otherwise it crashes. -/
theorem ofFile_eq_error_iff_escapes (services : Services) {workspace : Workspace} {path : Path}
    (hthere : (workspace.get? path).isSome = true) (environment : List (String × String)) :
    loadFrom services.readers workspace environment (some path) =
      ofFile services.readers workspace environment path ∧
    (∀ settings, ofFile services.readers workspace environment path = .ok settings ↔
      Loads services.readers workspace environment path settings) ∧
    (((∃ settings, ofFile services.readers workspace environment path = .ok settings) ∨
        ∃ e, ofFile services.readers workspace environment path = .error (.config e)) ↔
      ∀ error, ¬ Escapes services.readers workspace environment path error) ∧
    (∀ error, (ofFile services.readers workspace environment path = .error error ∧
        error.isConfig = false) ↔ Escapes services.readers workspace environment path error) ∧
    ∀ arguments options error, Options.parse arguments = some options →
      options.question = none → options.config.map Path.ofString = some path →
      ofFile services.readers workspace environment path = .error error →
        (CommandLine.run services workspace environment arguments).exitCode = 1 ∧
        ((CommandLine.run services workspace environment arguments).crash =
            some (.settings error) ↔
          Escapes services.readers workspace environment path error) ∧
        ((CommandLine.run services workspace environment arguments).crash = some .markup ↔
          ∃ e, error = .config e ∧
            services.console ("[red]" ++ e.message ++ "[/red]") = none) ∧
        ((CommandLine.run services workspace environment arguments).crash = none ↔
          ∃ e, error = .config e ∧
            (services.console ("[red]" ++ e.message ++ "[/red]")).isSome = true) := by
  have hload := loadFrom_of_isSome services.readers environment hthere
  have hok := ofFile_eq_ok_iff services.readers workspace environment path
  have hescapes := ofFile_other_error_iff services.readers workspace environment path
  refine ⟨hload, hok, ⟨?_, fun hnone => ?_⟩, hescapes, ?_⟩
  · rintro (⟨settings, hsettings⟩ | ⟨e, hconfig⟩) error h
    · exact absurd (hsettings.symm.trans h.ofFile_eq) (by simp)
    · obtain rfl : .config e = error := Except.error.inj (hconfig.symm.trans h.ofFile_eq)
      exact absurd h.not_isConfig (by simp [LoadError.isConfig])
  · rcases escapes_or_told services.readers workspace environment path with ⟨error, h⟩ |
      ⟨settings, h⟩ | htold
    · exact absurd h (hnone error)
    · exact Or.inl ⟨settings, h.ofFile_eq⟩
    · exact Or.inr htold
  · intro arguments options error hoptions hquestion hpath herror
    obtain ⟨hcode, hcrash, hmarkup, hnone⟩ :=
      CommandLine.work_of_load_error services (hpath ▸ hload.trans herror)
    rw [CommandLine.run_eq_work services hoptions hquestion]
    refine ⟨hcode, ?_, hmarkup, hnone⟩
    rw [hcrash, ← hescapes error, and_iff_right herror]

def bytesWorkspace : Workspace :=
  ({} : Workspace).addFile (Path.ofString "c.yaml") (.ok [0xFF])

/-- It does not matter what the readers are. -/
theorem ofFile_eq_error_iff_escapes_bytes :
    (bytesWorkspace.get? (Path.ofString "c.yaml")).isSome = true ∧
    ∀ services : Services,
      Escapes services.readers bytesWorkspace [] (Path.ofString "c.yaml") .undecodable ∧
      ofFile services.readers bytesWorkspace [] (Path.ofString "c.yaml") = .error .undecodable ∧
      (CommandLine.run services bytesWorkspace [] ["-c", "c.yaml"]).exitCode = 1 ∧
      (CommandLine.run services bytesWorkspace [] ["-c", "c.yaml"]).crash =
        some (.settings .undecodable) := by
  have hthere : (bytesWorkspace.get? (Path.ofString "c.yaml")).isSome = true := rfl
  refine ⟨hthere, fun services => ?_⟩
  have htext : Escapes services.readers bytesWorkspace [] (Path.ofString "c.yaml") .undecodable :=
    .content (rfl : bytesWorkspace.read (Path.ofString "c.yaml") = .ok [0xFF]) rfl
  obtain ⟨-, -, -, hescapes, hrun⟩ := ofFile_eq_error_iff_escapes services hthere []
  have hload := ((hescapes _).2 htext).1
  obtain ⟨hcode, hcrash, -⟩ :=
    hrun ["-c", "c.yaml"] { config := some "c.yaml" } _ (by decide +kernel) rfl rfl hload
  exact ⟨htext, hload, hcode, hcrash.2 htext⟩

end Settings

end ImportGuard
