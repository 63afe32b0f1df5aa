import ThriftProxy.Config
import ThriftProxy.Lib.Fuel

/-!
# Configuration snapshots

What a configuration file means is the sequence of all entries of its lines and of
the files it includes, of which the first one of each key counts. A server holds
at most one such sequence, the configuration installed last, and answers from it.
The code keeps to this as long as no key is repeated on a line that has others
behind it and no file outgrows one `read`.
-/

namespace ThriftProxy

open Machine Transition Fuel Relation

/-! ## The meaning of a configuration file -/

/-- The lines of a file. -/
def fileLines (bytes : List UInt8) : List (List UInt8) := Text.pieces newline bytes

/-- The entries of lines, those of included files in the place of the include line. -/
inductive LinesExpand (files : FileSystem) : List (List UInt8) → ConfigMap → Prop
  | nil : LinesExpand files [] []
  | idle {line : List UInt8} {rest : List (List UInt8)} {entries : ConfigMap} :
      configLine line = .idle → LinesExpand files rest entries →
      LinesExpand files (line :: rest) entries
  | entry {line key val : List UInt8} {rest : List (List UInt8)} {entries : ConfigMap} :
      configLine line = .entry key val → LinesExpand files rest entries →
      LinesExpand files (line :: rest) ((key, val) :: entries)
  | inclusion {line fileName bytes : List UInt8} {rest : List (List UInt8)}
      {inner entries : ConfigMap} :
      configLine line = .inclusion fileName → files.outcome fileName = .contents bytes →
      LinesExpand files (fileLines bytes) inner → LinesExpand files rest entries →
      LinesExpand files (line :: rest) (inner ++ entries)

/-- The complete entries of a file and of all files it includes. -/
def Expands (files : FileSystem) (source : List UInt8) (entries : ConfigMap) : Prop :=
  ∃ bytes, files.outcome source = .contents bytes ∧ LinesExpand files (fileLines bytes) entries

namespace LinesExpand

variable {files : FileSystem} {line key val fileName : List UInt8} {rest : List (List UInt8)}
  {entries : ConfigMap}

/-- A line without an entry adds nothing. -/
theorem of_idle (h : LinesExpand files (line :: rest) entries) (hline : configLine line = .idle) :
    LinesExpand files rest entries := by
  cases h with
  | idle _ hrest => exact hrest
  | entry hother _ => cases hother.symm.trans hline
  | inclusion hother _ _ _ => cases hother.symm.trans hline

/-- A line with an entry adds this entry. -/
theorem of_entry (h : LinesExpand files (line :: rest) entries)
    (hline : configLine line = .entry key val) :
    ∃ back, entries = (key, val) :: back ∧ LinesExpand files rest back := by
  cases h with
  | idle hother _ => cases hother.symm.trans hline
  | entry hother hrest =>
    cases hother.symm.trans hline
    exact ⟨_, rfl, hrest⟩
  | inclusion hother _ _ _ => cases hother.symm.trans hline

/-- A line that includes a file adds the entries of the file. -/
theorem of_inclusion (h : LinesExpand files (line :: rest) entries)
    (hline : configLine line = .inclusion fileName) :
    ∃ bytes inner back, files.outcome fileName = .contents bytes ∧ entries = inner ++ back ∧
      LinesExpand files (fileLines bytes) inner ∧ LinesExpand files rest back := by
  cases h with
  | idle hother _ => cases hother.symm.trans hline
  | entry hother _ => cases hother.symm.trans hline
  | inclusion hother hbytes hinner hrest =>
    cases hother.symm.trans hline
    exact ⟨_, _, _, hbytes, rfl, hinner, hrest⟩

/-- Lines have one complete sequence of entries. -/
theorem unique {lines : List (List UInt8)} {entries' : ConfigMap}
    (h : LinesExpand files lines entries) (h' : LinesExpand files lines entries') :
    entries = entries' := by
  induction h generalizing entries' with
  | nil =>
    cases h'
    rfl
  | idle hline _ ih => exact ih (h'.of_idle hline)
  | entry hline _ ih =>
    obtain ⟨back, rfl, hback⟩ := h'.of_entry hline
    rw [ih hback]
  | inclusion hline hbytes _ _ ihInner ihRest =>
    obtain ⟨bytes', inner', back', hbytes', rfl, hinner', hback'⟩ := h'.of_inclusion hline
    cases hbytes.symm.trans hbytes'
    rw [ihInner hinner', ihRest hback']

end LinesExpand

/-- A file has one complete sequence of entries. -/
theorem Expands.unique {files : FileSystem} {source : List UInt8} {entries entries' : ConfigMap}
    (h : Expands files source entries) (h' : Expands files source entries') :
    entries = entries' := by
  obtain ⟨bytes, hbytes, hlines⟩ := h
  obtain ⟨bytes', hbytes', hlines'⟩ := h'
  cases hbytes.symm.trans hbytes'
  exact hlines.unique hlines'

/-- Two sequences of entries agree on the value of every key. -/
def SameValues (entries entries' : ConfigMap) : Prop :=
  ∀ key, entries.lookup key = entries'.lookup key

/-- What a call may answer and install, given the configuration installed before. -/
def Serves (installed : Option ConfigMap) :
    ConfigCall → ConfigAnswer → Option ConfigMap → Prop
  | .load files source _, answer, installed' =>
    match installed with
    | some _ => answer = .done true ∧ installed' = installed
    | none =>
      (answer = .done true ∧ ∃ entries, Expands files source entries ∧ installed' = some entries) ∨
      (answer = .done false ∧ installed' = none)
  | .reload files source, answer, installed' =>
    (answer = .done true ∧ installed.isSome ∧
      ∃ entries, Expands files source entries ∧ installed' = some entries) ∨
    (answer = .done false ∧ installed' = installed)
  | .getIntval key defult, answer, installed' =>
    answer = .int (((installed.bind fun entries => entries.lookup key).map Text.atoi).getD defult) ∧
      installed' = installed
  | .getStrval key defult, answer, installed' =>
    answer = .str ((installed.bind fun entries => entries.lookup key).or defult) ∧
      installed' = installed

/-- A call and its answer, between the configurations installed before and after it. -/
def ServesCall (installed : Option ConfigMap) (call : ConfigCall × ConfigAnswer)
    (installed' : Option ConfigMap) : Prop :=
  Serves installed call.1 call.2 installed'

/-- The answers to a sequence of calls are those of a server that installs whole
configurations only. -/
def Atomic (calls : List ConfigCall) (answers : List ConfigAnswer) : Prop :=
  answers.length = calls.length ∧ ∃ installed, Run ServesCall none (calls.zip answers) installed

/-! ## Includes and repeated keys -/

/-- A file includes another one. -/
def Includes (files : FileSystem) (included file : List UInt8) : Prop :=
  ∃ bytes, files.outcome file = .contents bytes ∧
    ∃ line ∈ fileLines bytes, configLine line = .inclusion included

/-- No file includes itself, directly or through others, and none has a NUL byte. -/
structure FileSystem.Proper (files : FileSystem) : Prop where
  /-- The includes are acyclic. -/
  acyclic : ∀ file, ¬ TransGen (Includes files) file file
  /-- The files are text. -/
  text : ∀ file bytes, files.outcome file = .contents bytes → (0 : UInt8) ∉ bytes

/-- Behind entries that have been read, the lines reach one that repeats a key and
has others behind it in its file. -/
inductive StopsEarly (files : FileSystem) : ConfigMap → List (List UInt8) → Prop
  | here {seen : ConfigMap} {line key val : List UInt8} {rest : List (List UInt8)} :
      configLine line = .entry key val → key ∈ seen.map Prod.fst → rest ≠ [] →
      StopsEarly files seen (line :: rest)
  | idle {seen : ConfigMap} {line : List UInt8} {rest : List (List UInt8)} :
      configLine line = .idle → StopsEarly files seen rest →
      StopsEarly files seen (line :: rest)
  | entry {seen : ConfigMap} {line key val : List UInt8} {rest : List (List UInt8)} :
      configLine line = .entry key val → StopsEarly files (seen ++ [(key, val)]) rest →
      StopsEarly files seen (line :: rest)
  | inside {seen : ConfigMap} {line fileName bytes : List UInt8} {rest : List (List UInt8)} :
      configLine line = .inclusion fileName → files.outcome fileName = .contents bytes →
      StopsEarly files seen (fileLines bytes) → StopsEarly files seen (line :: rest)
  | behind {seen inner : ConfigMap} {line fileName bytes : List UInt8}
      {rest : List (List UInt8)} :
      configLine line = .inclusion fileName → files.outcome fileName = .contents bytes →
      LinesExpand files (fileLines bytes) inner → StopsEarly files (seen ++ inner) rest →
      StopsEarly files seen (line :: rest)

/-- Lines whose complete entries repeat no key are read to the end. -/
theorem LinesExpand.not_stopsEarly {files : FileSystem} {lines : List (List UInt8)}
    {seen entries : ConfigMap} (h : LinesExpand files lines entries)
    (hnodup : ((seen ++ entries).map Prod.fst).Nodup) : ¬ StopsEarly files seen lines := by
  intro hstops
  induction hstops generalizing entries with
  | here hline hseen _ =>
    obtain ⟨back, rfl, -⟩ := h.of_entry hline
    rw [List.map_append] at hnodup
    exact (List.nodup_append.mp hnodup).2.2 _ hseen _ List.mem_cons_self rfl
  | idle hline _ ih => exact ih (h.of_idle hline) hnodup
  | entry hline _ ih =>
    obtain ⟨back, rfl, hback⟩ := h.of_entry hline
    exact ih hback (by rwa [List.append_assoc])
  | inside hline hbytes _ ih =>
    obtain ⟨bytes', inner', back', hbytes', rfl, hinner', -⟩ := h.of_inclusion hline
    cases hbytes.symm.trans hbytes'
    refine ih hinner' (hnodup.sublist (List.Sublist.map _ ?_))
    rw [← List.append_assoc]
    exact List.sublist_append_left _ _
  | behind hline hbytes hinner _ ih =>
    obtain ⟨bytes', inner', back', hbytes', rfl, hinner', hback'⟩ := h.of_inclusion hline
    cases hbytes.symm.trans hbytes'
    rw [hinner'.unique hinner] at hnodup
    exact ih hback' (by rwa [List.append_assoc])

/-- A file fits into one `read`, or is too large for a buffer. -/
def Fits (bytes : List UInt8) : Prop :=
  bytes.length ≤ maxRead ∨ wrapInt bytes.length < 0

/-- A file and those it includes fit. -/
def FitsFrom (files : FileSystem) (source : List UInt8) : Prop :=
  ∀ file bytes, ReflTransGen (Includes files) file source →
    files.outcome file = .contents bytes → Fits bytes

/-- Every line of a file and of those it includes is reached: no repeated key has
lines behind it, and no text is cut off. -/
structure Unbroken (files : FileSystem) (source : List UInt8) : Prop where
  /-- No repeated key has lines behind it in its file. -/
  keys : ∀ bytes, files.outcome source = .contents bytes →
    ¬ StopsEarly files [] (fileLines bytes)
  /-- No text is cut off. -/
  fits : FitsFrom files source

/-! ## Values -/

/-- A key has a value exactly if it is among the keys. -/
theorem lookup_isSome_iff {α : Type} {entries : List (List UInt8 × α)} {key : List UInt8} :
    (entries.lookup key).isSome ↔ key ∈ entries.map Prod.fst := by
  rw [List.lookup_isSome_iff, List.mem_map]
  refine exists_congr fun entry => and_congr_right fun _ => ?_
  rw [beq_iff_eq, eq_comm]

namespace SameValues

variable {entries entries' : ConfigMap}

/-- A map has the values that it has. -/
theorem refl (entries : ConfigMap) : SameValues entries entries := fun _ => rfl

/-- The same entries behind both. -/
theorem append (h : SameValues entries entries') (back : ConfigMap) :
    SameValues (entries ++ back) (entries' ++ back) := by
  intro key
  rw [List.lookup_append, List.lookup_append, h key]

/-- An entry that repeats a key does not count. -/
theorem repeated (h : SameValues entries entries') {key : List UInt8} (val : List UInt8)
    (hkey : (entries.lookup key).isSome) : SameValues entries (entries' ++ [(key, val)]) := by
  intro key'
  rw [List.lookup_append, ← h key']
  by_cases heq : key' = key
  · rw [heq, Option.or_of_isSome hkey]
  · have hnone : ([(key, val)] : ConfigMap).lookup key' = none := by
      rw [List.lookup_cons, beq_false_of_ne heq]
      rfl
    rw [hnone, Option.or_none]

end SameValues

/-! ## Parsing -/

/-- The text of a file that fits is the file. -/
theorem readText_of_fits {bytes text : List UInt8} (hfits : Fits bytes)
    (htext : (0 : UInt8) ∉ bytes) (hread : readText bytes = some text) : text = bytes := by
  simp only [readText] at hread
  split at hread
  · cases hread
  · rename_i hlen
    have hle : bytes.length ≤ maxRead := hfits.resolve_right hlen
    have hsmall : bytes.length < 2 ^ 31 := lt_of_le_of_lt hle (by decide)
    rw [wrapInt_eq_self (by omega) (by exact_mod_cast hsmall), Int.toNat_natCast,
      min_eq_left hle, List.take_length, cstr_eq_self htext] at hread
    exact (Option.some.inj hread).symm

/-- What is parsed of a file that fits is its contents. -/
theorem contents_of_text {files : FileSystem} (hproper : files.Proper) {source text : List UInt8}
    (hfits : FitsFrom files source) (htext : (files.outcome source).text = some text) :
    files.outcome source = .contents text := by
  cases houtcome : files.outcome source with
  | contents bytes =>
    rw [houtcome] at htext
    rw [readText_of_fits (hfits source bytes ReflTransGen.refl houtcome)
      (hproper.text source bytes houtcome) htext]
  | _ =>
    rw [houtcome] at htext
    cases htext

/-- Files that fit, when included, fit. -/
theorem FitsFrom.included {files : FileSystem} {file included : List UInt8}
    (h : FitsFrom files file) (hincludes : Includes files included file) :
    FitsFrom files included :=
  fun other bytes hreach => h other bytes (hreach.tail hincludes)

/-- The parser of included files reads the complete entries of a file, provided
that no repeated key ends it early. -/
def ReadsWhole (files : FileSystem)
    (parse : List UInt8 → ConfigMap → Option (Bool × ConfigMap)) (fileName : List UInt8) : Prop :=
  ∀ ⦃configMap configMap' seen : ConfigMap⦄, SameValues configMap seen →
    parse fileName configMap = some (true, configMap') →
    (∀ bytes, files.outcome fileName = .contents bytes →
      ¬ StopsEarly files seen (fileLines bytes)) →
    ∃ entries, Expands files fileName entries ∧ SameValues configMap' (seen ++ entries)

/-- The loop over the lines reads their complete entries. -/
theorem linesExpand_of_parseLines {files : FileSystem}
    {parse : List UInt8 → ConfigMap → Option (Bool × ConfigMap)} {lines : List (List UInt8)}
    (hparse : ∀ line ∈ lines, ∀ fileName, configLine line = .inclusion fileName →
      ReadsWhole files parse fileName)
    {configMap configMap' seen : ConfigMap} (hsame : SameValues configMap seen)
    (hrun : parseLines parse lines configMap = some (true, configMap'))
    (hstop : ¬ StopsEarly files seen lines) :
    ∃ entries, LinesExpand files lines entries ∧ SameValues configMap' (seen ++ entries) := by
  induction lines generalizing configMap seen with
  | nil =>
    cases hrun
    exact ⟨[], LinesExpand.nil, by rwa [List.append_nil]⟩
  | cons line rest ih =>
    have hrest := fun other hmem => hparse other (List.mem_cons_of_mem line hmem)
    unfold parseLines at hrun
    split at hrun
    · rename_i hline
      obtain ⟨entries, hexpand, hvalues⟩ :=
        ih hrest hsame hrun fun h => hstop (StopsEarly.idle hline h)
      exact ⟨entries, LinesExpand.idle hline hexpand, hvalues⟩
    · rename_i key val hline
      split at hrun
      · obtain ⟨entries, hexpand, hvalues⟩ :=
          ih hrest (hsame.append [(key, val)]) hrun fun h => hstop (StopsEarly.entry hline h)
        rw [List.append_assoc] at hvalues
        exact ⟨(key, val) :: entries, LinesExpand.entry hline hexpand, hvalues⟩
      · -- The function is left: there is no other line behind this one.
        rename_i old hold
        have hkey : (configMap.lookup key).isSome := by rw [hold, Option.isSome_some]
        have hseen : key ∈ seen.map Prod.fst := by
          rw [← lookup_isSome_iff, ← hsame key]
          exact hkey
        have hlast : rest = [] := by
          by_contra hne
          exact hstop (StopsEarly.here hline hseen hne)
        cases hrun
        rw [hlast]
        exact ⟨[(key, val)], LinesExpand.entry hline LinesExpand.nil, hsame.repeated val hkey⟩
    · rename_i fileName hline
      obtain ⟨⟨ret, middle⟩, hfile, hnext⟩ := Option.bind_eq_some_iff.mp hrun
      cases ret with
      | false => cases hnext
      | true =>
        have hwhole := hparse line List.mem_cons_self fileName hline
        obtain ⟨inner, ⟨bytes, hbytes, hinner⟩, hmiddle⟩ :=
          hwhole hsame hfile fun bytes hbytes h => hstop (StopsEarly.inside hline hbytes h)
        obtain ⟨entries, hexpand, hvalues⟩ :=
          ih hrest hmiddle hnext fun h => hstop (StopsEarly.behind hline hbytes hinner h)
        rw [List.append_assoc] at hvalues
        exact ⟨inner ++ entries, LinesExpand.inclusion hline hbytes hinner hexpand, hvalues⟩

/-- `ParseConfigFile` reads the complete entries of a file that is not cut off. -/
theorem readsWhole_parseConfigFile {files : FileSystem} (hproper : files.Proper) (fuel : ℕ)
    {source : List UInt8} (hfits : FitsFrom files source) :
    ReadsWhole files (parseConfigFile files fuel) source := by
  induction fuel generalizing source with
  | zero =>
    intro _ _ _ _ hrun
    cases hrun
  | succ fuel ih =>
    intro configMap configMap' seen hsame hrun hstop
    rw [parseConfigFile] at hrun
    split at hrun
    · cases hrun
    · rename_i text htext
      have hcontents := contents_of_text hproper hfits htext
      have hincluded : ∀ line ∈ fileLines text, ∀ fileName,
          configLine line = .inclusion fileName →
          ReadsWhole files (parseConfigFile files fuel) fileName :=
        fun line hmem fileName hline =>
          ih (hfits.included ⟨text, hcontents, line, hmem, hline⟩)
      obtain ⟨entries, hexpand, hvalues⟩ :=
        linesExpand_of_parseLines hincluded hsame hrun (hstop text hcontents)
      exact ⟨entries, ⟨text, hcontents, hexpand⟩, hvalues⟩

/-! ## Termination -/

/-- The loop over the lines returns, since the parser of included files does. -/
theorem parseLines_returns {parse : ℕ → List UInt8 → ConfigMap → Option (Bool × ConfigMap)}
    {lines : List (List UInt8)}
    (hparse : ∀ line ∈ lines, ∀ fileName, configLine line = .inclusion fileName →
      ∀ configMap, ∃ r, Returns (fun fuel => parse fuel fileName configMap) r)
    (configMap : ConfigMap) :
    ∃ r, Returns (fun fuel => parseLines (parse fuel) lines configMap) r := by
  induction lines generalizing configMap with
  | nil => exact ⟨(true, configMap), returns_const _⟩
  | cons line rest ih =>
    have hrest := ih fun other hmem => hparse other (List.mem_cons_of_mem line hmem)
    simp only [parseLines]
    split
    · exact hrest configMap
    · split
      · exact hrest _
      · exact ⟨_, returns_const _⟩
    · rename_i fileName hline
      obtain ⟨⟨ret, middle⟩, hfile⟩ := hparse line List.mem_cons_self fileName hline configMap
      cases ret with
      | false => exact ⟨_, hfile.bind (returns_const _)⟩
      | true =>
        obtain ⟨r, hr⟩ := hrest middle
        exact ⟨r, hfile.bind hr⟩

/-- The files of a file system are finitely many. -/
theorem finite_names (files : FileSystem) : {file | file ∈ files.map Prod.fst}.Finite :=
  List.finite_toSet _

/-- Files with contents are among the files. -/
theorem mem_names_of_contents {files : FileSystem} {file bytes : List UInt8}
    (hbytes : files.outcome file = .contents bytes) : file ∈ files.map Prod.fst := by
  rw [← lookup_isSome_iff]
  unfold FileSystem.outcome at hbytes
  cases hlookup : files.lookup file with
  | none =>
    rw [hlookup] at hbytes
    cases hbytes
  | some outcome => rfl

/-- Includes lead to files that exist. -/
theorem Includes.mem_names {files : FileSystem} {included file : List UInt8}
    (h : Includes files included file) : file ∈ files.map Prod.fst := by
  obtain ⟨bytes, hbytes, -⟩ := h
  exact mem_names_of_contents hbytes

/-- `ParseConfigFile` returns. -/
theorem parseConfigFile_returns {files : FileSystem} (hproper : files.Proper)
    {source : List UInt8} (hfits : FitsFrom files source) (configMap : ConfigMap) :
    ∃ r, Returns (fun fuel => parseConfigFile files fuel source configMap) r := by
  have hwf : WellFounded (Includes files) :=
    wellFounded_of_acyclic (finite_names files) (fun _ _ h => h.mem_names) hproper.acyclic
  induction source using hwf.induction generalizing configMap with
  | _ source ih =>
    suffices hbody : ∃ r,
        Returns (fun fuel => parseConfigFile files (fuel + 1) source configMap) r by
      obtain ⟨r, hr⟩ := hbody
      exact ⟨r, hr.of_succ⟩
    simp only [parseConfigFile]
    split
    · exact ⟨_, returns_const _⟩
    · rename_i text htext
      have hcontents := contents_of_text hproper hfits htext
      apply parseLines_returns
      intro line hmem fileName hline configMap
      have hincludes : Includes files fileName source := ⟨text, hcontents, line, hmem, hline⟩
      exact ih fileName hincludes (hfits.included hincludes) configMap

/-- `ParseConfigFile` returns, and if it returns true, it has read the complete
entries of its file. -/
theorem parseConfigFile_spec {files : FileSystem} (hproper : files.Proper) {source : List UInt8}
    (hunbroken : Unbroken files source) :
    ∃ ret configMap, Returns (fun fuel => parseConfigFile files fuel source []) (ret, configMap) ∧
      (ret = true → ∃ entries, Expands files source entries ∧ SameValues configMap entries) := by
  obtain ⟨⟨ret, configMap⟩, hreturns⟩ := parseConfigFile_returns hproper hunbroken.fits []
  refine ⟨ret, configMap, hreturns, ?_⟩
  rintro rfl
  obtain ⟨enough, henough⟩ := hreturns
  exact readsWhole_parseConfigFile hproper enough hunbroken.fits (SameValues.refl [])
    (henough enough le_rfl) hunbroken.keys

/-! ## Calls -/

/-- The configuration that the getters answer from. -/
def serving (cm : Option ConfigManager) : Option ConfigMap :=
  cm.bind fun cm => if cm.loaded then some cm.configMap else none

/-- A loaded manager serves its map. -/
theorem serving_of_loaded {cm : ConfigManager} (h : cm.loaded = true) :
    serving (some cm) = some cm.configMap := by
  rw [serving, Option.bind_some, if_pos h]

/-- A manager that is not loaded serves nothing. -/
theorem serving_of_not_loaded {cm : ConfigManager} (h : cm.loaded = false) :
    serving (some cm) = none := by
  rw [serving, Option.bind_some, h]
  rfl

/-- What `config_get_intval` answers, read off the entries that are served. -/
theorem configGetIntval_eq (key : List UInt8) (defult : ℤ) (cm : Option ConfigManager) :
    configGetIntval key defult cm =
      (((serving cm).bind fun entries => entries.lookup key).map Text.atoi).getD defult := by
  cases cm with
  | none => rfl
  | some cm =>
    cases hloaded : cm.loaded with
    | false => simp [configGetIntval, serving_of_not_loaded, hloaded]
    | true =>
      simp only [configGetIntval, ConfigManager.configGetIntVal, serving_of_loaded, hloaded,
        if_true, Option.bind_some]
      cases cm.configMap.lookup key with
      | none => rfl
      | some text => rfl

/-- What `config_get_strval` answers, read off the entries that are served. -/
theorem configGetStrval_eq (key : List UInt8) (defult : Option (List UInt8))
    (cm : Option ConfigManager) :
    configGetStrval key defult cm =
      ((serving cm).bind fun entries => entries.lookup key).or defult := by
  cases cm with
  | none => rfl
  | some cm =>
    cases hloaded : cm.loaded with
    | false => simp [configGetStrval, serving_of_not_loaded, hloaded]
    | true =>
      simp only [configGetStrval, ConfigManager.configGetStrVal, serving_of_loaded, hloaded,
        if_true, Option.bind_some]
      cases cm.configMap.lookup key with
      | none => rfl
      | some text => rfl

/-- The manager serves the values of the configuration that is installed. -/
inductive Holds (cm : Option ConfigManager) : Option ConfigMap → Prop
  | unloaded : serving cm = none → Holds cm none
  | loaded {configMap entries : ConfigMap} : serving cm = some configMap →
      SameValues configMap entries → Holds cm (some entries)

/-- The manager holds values for a key exactly as the installed configuration does. -/
theorem Holds.lookup_eq {cm : Option ConfigManager} {installed : Option ConfigMap}
    (h : Holds cm installed) (key : List UInt8) :
    ((serving cm).bind fun entries => entries.lookup key) =
      installed.bind fun entries => entries.lookup key := by
  cases h with
  | unloaded hserving => rw [hserving]
  | loaded hserving hsame =>
    rw [hserving]
    exact hsame key

/-- A manager that holds a configuration serves one. -/
theorem Holds.serving_ne_none {cm : Option ConfigManager} {entries : ConfigMap}
    (h : Holds cm (some entries)) : serving cm ≠ none := by
  obtain _ | ⟨hserving, -⟩ := h
  rw [hserving]
  exact Option.some_ne_none _

/-- A manager that serves a configuration holds one. -/
theorem Holds.isSome {cm : Option ConfigManager} {installed : Option ConfigMap}
    (h : Holds cm installed) (hserving : serving cm ≠ none) : installed.isSome := by
  cases h with
  | unloaded hnone => exact absurd hnone hserving
  | loaded _ _ => rfl

/-- An attempt to install the configuration of a file has succeeded with all of its
entries, or failed and left the manager with the configuration before. -/
def Installs (files : FileSystem) (source : List UInt8) (before : Option ConfigMap) (ok : Bool)
    (cm : Option ConfigManager) : Prop :=
  (ok = true ∧ ∃ entries, Expands files source entries ∧ Holds cm (some entries)) ∨
    (ok = false ∧ Holds cm before)

/-- `LoadConfig` on a manager that is not loaded. -/
theorem ConfigManager.loadConfig_spec {files : FileSystem} {source : List UInt8}
    {cm : ConfigManager} (hproper : files.Proper) (hunbroken : Unbroken files source)
    (hunloaded : cm.loaded = false) :
    ∃ ok cm', Returns (fun fuel => cm.loadConfig fuel files source) (ok, cm') ∧
      Installs files source none ok (some cm') := by
  obtain ⟨ret, configMap, hreturns, hwhole⟩ := parseConfigFile_spec hproper hunbroken
  refine ⟨ret, _, hreturns.map _, ?_⟩
  cases ret with
  | false => exact Or.inr ⟨rfl, Holds.unloaded (serving_of_not_loaded hunloaded)⟩
  | true =>
    obtain ⟨entries, hexpands, hsame⟩ := hwhole rfl
    exact Or.inl ⟨rfl, entries, hexpands, Holds.loaded (serving_of_loaded rfl) hsame⟩

/-- `ReloadConfig` on a loaded manager. -/
theorem ConfigManager.reloadConfig_spec {files : FileSystem} {source : List UInt8}
    {cm : ConfigManager} {installed : Option ConfigMap} (hproper : files.Proper)
    (hunbroken : Unbroken files source) (hloaded : cm.loaded = true)
    (hholds : Holds (some cm) installed) :
    ∃ ok cm', Returns (fun fuel => cm.reloadConfig fuel files source) (ok, cm') ∧
      Installs files source installed ok (some cm') := by
  obtain ⟨ret, configMap, hreturns, hwhole⟩ := parseConfigFile_spec hproper hunbroken
  cases ret with
  | false => exact ⟨false, cm, hreturns.map _, Or.inr ⟨rfl, hholds⟩⟩
  | true =>
    obtain ⟨entries, hexpands, hsame⟩ := hwhole rfl
    have hserving : serving (some { cm with configMap := configMap }) = some configMap :=
      serving_of_loaded hloaded
    exact ⟨true, _, hreturns.map _, Or.inl ⟨rfl, entries, hexpands, Holds.loaded hserving hsame⟩⟩

/-- A manager that serves nothing is missing or not loaded. -/
theorem serving_eq_none_iff {cm : ConfigManager} :
    serving (some cm) = none ↔ cm.loaded = false := by
  cases hloaded : cm.loaded with
  | false => simp [serving_of_not_loaded hloaded]
  | true => simp [serving_of_loaded hloaded]

/-- `load_config` before the first success. -/
theorem loadConfig_spec {files : FileSystem} {source : List UInt8} (allocated : Bool)
    {cm : Option ConfigManager} (hproper : files.Proper) (hunbroken : Unbroken files source)
    (hnone : serving cm = none) :
    ∃ ok cm', Returns (fun fuel => loadConfig fuel files source allocated cm) (ok, cm') ∧
      Installs files source none ok cm' := by
  cases cm with
  | none =>
    cases allocated with
    | false => exact ⟨false, none, returns_const _, Or.inr ⟨rfl, Holds.unloaded rfl⟩⟩
    | true =>
      have hnew : ({ configMap := [], loaded := false } : ConfigManager).loaded = false := rfl
      obtain ⟨ok, cm', hreturns, hinstalls⟩ :=
        ConfigManager.loadConfig_spec hproper hunbroken hnew
      exact ⟨ok, some cm', hreturns.map _, hinstalls⟩
  | some cm =>
    have hunloaded := serving_eq_none_iff.mp hnone
    obtain ⟨ok, cm', hreturns, hinstalls⟩ :=
      ConfigManager.loadConfig_spec hproper hunbroken hunloaded
    refine ⟨ok, some cm', ?_, hinstalls⟩
    simp only [loadConfig, hunloaded]
    exact hreturns.map _

/-- `load_config` on a loaded manager changes nothing. -/
theorem loadConfig_of_serving {files : FileSystem} {source : List UInt8} (fuel : ℕ)
    (allocated : Bool) {cm : Option ConfigManager} (hserving : serving cm ≠ none) :
    loadConfig fuel files source allocated cm = some (true, cm) := by
  cases cm with
  | none => exact absurd rfl hserving
  | some cm =>
    have hloaded : cm.loaded = true := Bool.not_eq_false _ ▸ mt serving_eq_none_iff.mpr hserving
    rw [loadConfig, if_pos hloaded]

/-- `reload_config` after the first success. -/
theorem reloadConfig_spec {files : FileSystem} {source : List UInt8} {cm : Option ConfigManager}
    {installed : Option ConfigMap} (hproper : files.Proper) (hunbroken : Unbroken files source)
    (hserving : serving cm ≠ none) (hholds : Holds cm installed) :
    ∃ ok cm', Returns (fun fuel => reloadConfig fuel files source cm) (ok, cm') ∧
      Installs files source installed ok cm' := by
  cases cm with
  | none => exact absurd rfl hserving
  | some cm =>
    have hloaded : cm.loaded = true := Bool.not_eq_false _ ▸ mt serving_eq_none_iff.mpr hserving
    obtain ⟨ok, cm', hreturns, hinstalls⟩ :=
      ConfigManager.reloadConfig_spec hproper hunbroken hloaded hholds
    refine ⟨ok, some cm', ?_, hinstalls⟩
    simp only [reloadConfig, hloaded, if_true]
    exact hreturns.map _

/-- `reload_config` before the first success fails. -/
theorem reloadConfig_of_not_serving {files : FileSystem} {source : List UInt8} (fuel : ℕ)
    {cm : Option ConfigManager} (hnone : serving cm = none) :
    reloadConfig fuel files source cm = some (false, cm) := by
  cases cm with
  | none => rfl
  | some cm =>
    rw [reloadConfig, serving_eq_none_iff.mp hnone]
    rfl

/-- The condition on a call: a file that the call reads is unbroken. -/
def ConfigCall.Unbroken (cm : Option ConfigManager) : ConfigCall → Prop
  | .load files source _ => serving cm = none → ThriftProxy.Unbroken files source
  | .reload files source => serving cm ≠ none → ThriftProxy.Unbroken files source
  | .getIntval _ _ => True
  | .getStrval _ _ => True

/-- The file system of a call is proper. -/
def ConfigCall.Proper : ConfigCall → Prop
  | .load files _ _ => files.Proper
  | .reload files _ => files.Proper
  | .getIntval _ _ => True
  | .getStrval _ _ => True

/-- A call returns, with an answer that the installed configuration allows. -/
theorem ConfigCall.serves {call : ConfigCall} {cm : Option ConfigManager}
    {installed : Option ConfigMap} (hproper : call.Proper) (hunbroken : call.Unbroken cm)
    (hholds : Holds cm installed) :
    ∃ answer cm' installed', Returns (fun fuel => call.run fuel cm) (answer, cm') ∧
      Serves installed call answer installed' ∧ Holds cm' installed' := by
  cases call with
  | getIntval key defult =>
    refine ⟨_, cm, installed, returns_const _, ⟨?_, rfl⟩, hholds⟩
    rw [configGetIntval_eq, hholds.lookup_eq]
  | getStrval key defult =>
    refine ⟨_, cm, installed, returns_const _, ⟨?_, rfl⟩, hholds⟩
    rw [configGetStrval_eq, hholds.lookup_eq]
  | load files source allocated =>
    cases installed with
    | none =>
      obtain ⟨hnone⟩ := hholds
      obtain ⟨ok, cm', hreturns, hinstalls⟩ :=
        loadConfig_spec allocated hproper (hunbroken hnone) hnone
      obtain ⟨rfl, entries, hexpands, hholds'⟩ | ⟨rfl, hholds'⟩ := hinstalls
      · exact ⟨.done true, cm', some entries, hreturns.map _,
          Or.inl ⟨rfl, entries, hexpands, rfl⟩, hholds'⟩
      · exact ⟨.done false, cm', none, hreturns.map _, Or.inr ⟨rfl, rfl⟩, hholds'⟩
    | some entries =>
      have hloads : ∀ fuel, (ConfigCall.load files source allocated).run fuel cm =
          some (.done true, cm) := by
        intro fuel
        rw [ConfigCall.run, loadConfig_of_serving fuel allocated hholds.serving_ne_none]
        rfl
      exact ⟨.done true, cm, some entries, ⟨0, fun fuel _ => hloads fuel⟩, ⟨rfl, rfl⟩, hholds⟩
  | reload files source =>
    by_cases hserving : serving cm = none
    · have hfails : ∀ fuel, (ConfigCall.reload files source).run fuel cm =
          some (.done false, cm) := by
        intro fuel
        rw [ConfigCall.run, reloadConfig_of_not_serving fuel hserving]
        rfl
      exact ⟨.done false, cm, installed, ⟨0, fun fuel _ => hfails fuel⟩, Or.inr ⟨rfl, rfl⟩, hholds⟩
    · obtain ⟨ok, cm', hreturns, hinstalls⟩ :=
        reloadConfig_spec hproper (hunbroken hserving) hserving hholds
      obtain ⟨rfl, entries, hexpands, hholds'⟩ | ⟨rfl, hholds'⟩ := hinstalls
      · exact ⟨.done true, cm', some entries, hreturns.map _,
          Or.inl ⟨rfl, hholds.isSome hserving, entries, hexpands, rfl⟩, hholds'⟩
      · exact ⟨.done false, cm', installed, hreturns.map _, Or.inr ⟨rfl, rfl⟩, hholds'⟩

/-! ## Files without includes -/

/-- Lines that are entries, in order. -/
def AreEntries (lines : List (List UInt8)) (entries : ConfigMap) : Prop :=
  lines.map configLine = entries.map fun entry => ConfigLine.entry entry.1 entry.2

instance (lines : List (List UInt8)) (entries : ConfigMap) :
    Decidable (AreEntries lines entries) := by
  unfold AreEntries
  infer_instance

/-- Lines that all are entries expand to these entries, whatever the files hold. -/
theorem AreEntries.linesExpand {lines : List (List UInt8)} {entries : ConfigMap}
    (h : AreEntries lines entries) (files : FileSystem) : LinesExpand files lines entries := by
  unfold AreEntries at h
  induction lines generalizing entries with
  | nil =>
    rw [List.map_nil, eq_comm, List.map_eq_nil_iff] at h
    rw [h]
    exact LinesExpand.nil
  | cons line rest ih =>
    rw [List.map_cons, eq_comm, List.map_eq_cons_iff] at h
    obtain ⟨entry, back, rfl, hline, hrest⟩ := h
    exact LinesExpand.entry hline.symm (ih hrest.symm)

/-- What is behind a name in a file system of one file. -/
theorem outcome_singleton {fileName bytes file bytes' : List UInt8}
    (h : FileSystem.outcome [(fileName, .contents bytes)] file = .contents bytes') :
    bytes' = bytes := by
  unfold FileSystem.outcome at h
  rw [List.lookup_cons] at h
  split at h
  · cases h
    rfl
  · cases h

/-- A file without includes includes none. -/
theorem AreEntries.not_includes {fileName bytes : List UInt8} {entries : ConfigMap}
    (h : AreEntries (fileLines bytes) entries) (included file : List UInt8) :
    ¬ Includes [(fileName, .contents bytes)] included file := by
  rintro ⟨bytes', houtcome, line, hmem, hline⟩
  rw [outcome_singleton houtcome] at hmem
  have hparsed := List.mem_map_of_mem (f := configLine) hmem
  rw [h, hline] at hparsed
  obtain ⟨entry, -, hentry⟩ := List.mem_map.mp hparsed
  cases hentry

/-- A file system of one file without includes is proper. -/
theorem AreEntries.proper {fileName bytes : List UInt8} {entries : ConfigMap}
    (h : AreEntries (fileLines bytes) entries) (htext : (0 : UInt8) ∉ bytes) :
    FileSystem.Proper [(fileName, .contents bytes)] := by
  refine ⟨?_, fun file bytes' houtcome => outcome_singleton houtcome ▸ htext⟩
  intro file hcycle
  obtain ⟨included, -, hincludes⟩ := TransGen.tail'_iff.mp hcycle
  exact h.not_includes included file hincludes

/-- A file without includes and repeated keys is unbroken. -/
theorem AreEntries.unbroken {fileName bytes : List UInt8} {entries : ConfigMap}
    (h : AreEntries (fileLines bytes) entries) (hnodup : (entries.map Prod.fst).Nodup)
    (hfits : bytes.length ≤ maxRead) (source : List UInt8) :
    Unbroken [(fileName, .contents bytes)] source := by
  constructor
  · intro bytes' houtcome
    rw [outcome_singleton houtcome]
    exact (h.linesExpand _).not_stopsEarly hnodup
  · intro file bytes' _ houtcome
    rw [outcome_singleton houtcome]
    exact Or.inl hfits

/-! ## Runs -/

/-- A call takes the manager to another state. -/
def ConfigStep (cm : Option ConfigManager) (call : ConfigCall) (cm' : Option ConfigManager) :
    Prop :=
  ∃ answer, Returns (fun fuel => call.run fuel cm) (answer, cm')

/-- Every call along a run is made on unbroken files. -/
def CallsUnbroken (cm : Option ConfigManager) (calls : List ConfigCall) : Prop :=
  ∀ before call after cm', calls = before ++ call :: after → Run ConfigStep cm before cm' →
    call.Unbroken cm'

/-- The first of unbroken calls is unbroken. -/
theorem CallsUnbroken.head {cm : Option ConfigManager} {call : ConfigCall}
    {calls : List ConfigCall} (h : CallsUnbroken cm (call :: calls)) : call.Unbroken cm :=
  h [] call calls cm rfl (Run.nil cm)

/-- The calls behind the first are unbroken in the state that it leaves. -/
theorem CallsUnbroken.tail {cm cm' : Option ConfigManager} {call : ConfigCall}
    {calls : List ConfigCall} (h : CallsUnbroken cm (call :: calls))
    (hstep : ConfigStep cm call cm') : CallsUnbroken cm' calls := by
  intro before other after cm'' hcalls hrun
  exact h (call :: before) other after cm'' (by rw [hcalls, List.cons_append])
    (Run.cons hstep hrun)

/-- The calls of a run return, with the answers of a server that installs whole
configurations, from any configuration on. -/
theorem runCalls_serves {calls : List ConfigCall} {cm : Option ConfigManager}
    {installed : Option ConfigMap} (hproper : ∀ call ∈ calls, call.Proper)
    (hunbroken : CallsUnbroken cm calls) (hholds : Holds cm installed) :
    ∃ answers cm' installed', Returns (fun fuel => runCalls fuel cm calls) (answers, cm') ∧
      answers.length = calls.length ∧ Run ServesCall installed (calls.zip answers) installed' := by
  induction calls generalizing cm installed with
  | nil => exact ⟨[], cm, installed, returns_const _, rfl, Run.nil installed⟩
  | cons call calls ih =>
    obtain ⟨answer, cm', installed', hreturns, hserves, hholds'⟩ :=
      ConfigCall.serves (hproper call List.mem_cons_self) hunbroken.head hholds
    obtain ⟨answers, last, lastInstalled, hrest, hlength, hrun⟩ :=
      ih (fun other hmem => hproper other (List.mem_cons_of_mem call hmem))
        (hunbroken.tail ⟨answer, hreturns⟩) hholds'
    refine ⟨answer :: answers, last, lastInstalled, hreturns.bind (hrest.map _), ?_, ?_⟩
    · rw [List.length_cons, List.length_cons, hlength]
    · exact Run.cons hserves hrun

/-- **Atomic snapshots.** Calls on unbroken files return, and the getters answer
from the complete configuration that was installed last. -/
theorem config_atomic {calls : List ConfigCall} (hproper : ∀ call ∈ calls, call.Proper)
    (hunbroken : CallsUnbroken none calls) :
    ∃ answers cm, Returns (fun fuel => runCalls fuel none calls) (answers, cm) ∧
      Atomic calls answers := by
  obtain ⟨answers, cm, installed, hreturns, hlength, hrun⟩ :=
    runCalls_serves hproper hunbroken (Holds.unloaded rfl)
  exact ⟨answers, cm, hreturns, hlength, installed, hrun⟩

/-- The name of a configuration file. -/
def confName : List UInt8 := [99]

/-- A configuration file is loaded and asked for the key `b`. -/
def loadAndAsk (bytes : List UInt8) : List ConfigCall :=
  [.load [(confName, .contents bytes)] confName true, .getStrval [98] none]

/-- The two calls. -/
theorem mem_loadAndAsk {bytes : List UInt8} {call : ConfigCall} (h : call ∈ loadAndAsk bytes) :
    call = .load [(confName, .contents bytes)] confName true ∨ call = .getStrval [98] none := by
  simpa only [loadAndAsk, List.mem_cons, List.not_mem_nil, or_false] using h

/-- The lines `a=1` and `b=2`. -/
def plainFile : List UInt8 := [97, 61, 49, 10, 98, 61, 50, 10]

/-- The line `b=3`. -/
def changedFile : List UInt8 := [98, 61, 51, 10]

/-- A configuration file is loaded, changed and loaded again, and asked for the key `b`
before and after. -/
def loadAndReload : List ConfigCall :=
  [.load [(confName, .contents plainFile)] confName true, .getStrval [98] none,
    .reload [(confName, .contents changedFile)] confName, .getStrval [98] none]

/-- The calls return, with the answers of a server that installs whole configurations. -/
theorem config_atomic_loadAndReload :
    ∃ answers cm, Returns (fun fuel => runCalls fuel none loadAndReload) (answers, cm) ∧
      Atomic loadAndReload answers := by
  have hplain : AreEntries (fileLines plainFile) [([97], [49]), ([98], [50])] := by decide
  have hchanged : AreEntries (fileLines changedFile) [([98], [51])] := by decide
  have hcalls : ∀ call ∈ loadAndReload, call.Proper ∧ ∀ cm, call.Unbroken cm := by
    simp only [loadAndReload, List.forall_mem_cons]
    refine ⟨⟨hplain.proper (by decide), fun _ _ => ?_⟩, ⟨trivial, fun _ => trivial⟩,
      ⟨hchanged.proper (by decide), fun _ _ => ?_⟩, ⟨trivial, fun _ => trivial⟩, by simp⟩
    · exact hplain.unbroken (by decide) (by decide) confName
    · exact hchanged.unbroken (by decide) (by decide) confName
  apply config_atomic fun call hcall => (hcalls call hcall).1
  intro before call after cm hsplit _
  refine (hcalls call ?_).2 cm
  rw [hsplit]
  exact List.mem_append_right before List.mem_cons_self

/-- The lines `a=1`, `a=2` and `b=3`. -/
def repeatedFile : List UInt8 := [97, 61, 49, 10, 97, 61, 50, 10, 98, 61, 51, 10]

/-- The key `b` has no value behind the line that repeats `a`. -/
theorem not_atomic_repeatedFile :
    (∀ call ∈ loadAndAsk repeatedFile, call.Proper) ∧
      ∃ answers cm,
        Returns (fun fuel => runCalls fuel none (loadAndAsk repeatedFile)) (answers, cm) ∧
        ¬ Atomic (loadAndAsk repeatedFile) answers := by
  have hentries : AreEntries (fileLines repeatedFile)
      [([97], [49]), ([97], [50]), ([98], [51])] := by decide
  refine ⟨?_, [.done true, .str none], _, Returns.of_succ (returns_const _), ?_⟩
  · intro call hcall
    obtain rfl | rfl := mem_loadAndAsk hcall
    · exact hentries.proper (by decide)
    · trivial
  · rintro ⟨-, installed, hrun⟩
    obtain ⟨s, hload, hrun⟩ := run_cons_iff.mp hrun
    obtain ⟨s', hask, -⟩ := run_cons_iff.mp hrun
    obtain ⟨-, entries, ⟨bytes, hbytes, hexpand⟩, rfl⟩ | ⟨hfalse, -⟩ := hload
    · rw [outcome_singleton hbytes] at hexpand
      rw [hexpand.unique (hentries.linesExpand _)] at hask
      exact absurd hask.1 (by decide)
    · cases hfalse

end ThriftProxy
