import ThriftProxy.ConfigSnapshots

/-!
# Termination of the configuration parser

`ParseConfigFile` calls itself for every include line that it comes to. Only a
repeated key ends the parsing of a file early, so an include cycle may be followed
for ever. The function returns exactly when it never comes to an include line of a
file that is still being parsed without having added a key in between.
-/

namespace ThriftProxy

open Fuel Relation

/-! ## The calls of the parser -/

/-- The file name and the map that a call is given. -/
abbrev ParseCall := List UInt8 × ConfigMap

/-- The loop over the lines comes to an include line, with the map as it is by then. -/
inductive ComesTo (files : FileSystem) : List (List UInt8) → ConfigMap → ParseCall → Prop
  | here {line fileName : List UInt8} {rest : List (List UInt8)} {configMap : ConfigMap} :
      configLine line = .inclusion fileName →
      ComesTo files (line :: rest) configMap (fileName, configMap)
  | idle {line : List UInt8} {rest : List (List UInt8)} {configMap : ConfigMap}
      {call : ParseCall} :
      configLine line = .idle → ComesTo files rest configMap call →
      ComesTo files (line :: rest) configMap call
  | entry {line key val : List UInt8} {rest : List (List UInt8)} {configMap : ConfigMap}
      {call : ParseCall} :
      configLine line = .entry key val → configMap.lookup key = none →
      ComesTo files rest (configMap ++ [(key, val)]) call →
      ComesTo files (line :: rest) configMap call
  | behind {line fileName : List UInt8} {rest : List (List UInt8)}
      {configMap configMap' : ConfigMap} {call : ParseCall} :
      configLine line = .inclusion fileName →
      Returns (fun fuel => parseConfigFile files fuel fileName configMap) (true, configMap') →
      ComesTo files rest configMap' call → ComesTo files (line :: rest) configMap call

/-- A call of the parser calls it for an included file. -/
def ParseCalls (files : FileSystem) (outer inner : ParseCall) : Prop :=
  ∃ text, (files.outcome outer.1).text = some text ∧
    ComesTo files (Text.pieces newline text) outer.2 inner

/-- The parser comes to a file again while that file is being parsed, with the map
as it was. -/
def Reenters (files : FileSystem) (call : ParseCall) : Prop :=
  ∃ inner, ReflTransGen (ParseCalls files) call inner ∧ TransGen (ParseCalls files) inner inner

/-- A file is included before the first key of another one. -/
def LeadsTo (files : FileSystem) (file included : List UInt8) : Prop :=
  ∃ text, (files.outcome file).text = some text ∧
    ∃ front line back, Text.pieces newline text = front ++ line :: back ∧
      configLine line = .inclusion included ∧ ∀ l ∈ front, ∀ key val, configLine l ≠ .entry key val

/-! ## Fuel -/

section

variable {files : FileSystem} {lines : List (List UInt8)} {configMap configMap' : ConfigMap}

/-- The loop returns what it returns with a parser for included files that fails more often. -/
theorem parseLines_mono {parse parse' : List UInt8 → ConfigMap → Option (Bool × ConfigMap)}
    (hparse : ∀ fileName configMap r, parse fileName configMap = some r →
      parse' fileName configMap = some r)
    {r : Bool × ConfigMap} (h : parseLines parse lines configMap = some r) :
    parseLines parse' lines configMap = some r := by
  induction lines generalizing configMap with
  | nil => exact h
  | cons line rest ih =>
    rw [parseLines] at h ⊢
    cases hline : configLine line with
    | idle =>
      simp only [hline] at h ⊢
      exact ih h
    | entry key val =>
      simp only [hline] at h ⊢
      cases hkey : configMap.lookup key with
      | none =>
        simp only [hkey] at h ⊢
        exact ih h
      | some old =>
        simp only [hkey] at h ⊢
        exact h
    | inclusion fileName =>
      simp only [hline] at h ⊢
      obtain ⟨⟨ret, middle⟩, hfile, hrest⟩ := Option.bind_eq_some_iff.mp h
      rw [Option.bind_eq_some_iff]
      refine ⟨_, hparse fileName configMap _ hfile, ?_⟩
      cases ret with
      | false => exact hrest
      | true => exact ih hrest

/-- The parser returns the same with more fuel. -/
theorem parseConfigFile_mono (files : FileSystem) (fuel : ℕ) (call : ParseCall)
    (r : Bool × ConfigMap) (h : parseConfigFile files fuel call.1 call.2 = some r) :
    parseConfigFile files (fuel + 1) call.1 call.2 = some r := by
  obtain ⟨fileName, configMap⟩ := call
  induction fuel generalizing fileName configMap r with
  | zero => cases h
  | succ fuel ih =>
    rw [parseConfigFile] at h ⊢
    cases htext : (files.outcome fileName).text with
    | none =>
      simp only [htext] at h ⊢
      exact h
    | some text =>
      simp only [htext] at h ⊢
      exact parseLines_mono (fun inner innerMap r h => ih r inner innerMap h) h

/-- What the parser returns with some fuel it returns with enough fuel. -/
theorem parseConfigFile_returns_of_eq {fuel : ℕ} {fileName : List UInt8} {r : Bool × ConfigMap}
    (h : parseConfigFile files fuel fileName configMap = some r) :
    Returns (fun fuel => parseConfigFile files fuel fileName configMap) r := by
  have hcall : (fun (fuel : ℕ) (call : ParseCall) => parseConfigFile files fuel call.1 call.2)
      fuel (fileName, configMap) = some r := h
  exact returns_of_eq_some (parseConfigFile_mono files) hcall

/-- The loop returns only if the parser does for the files that it comes to. -/
theorem parse_ne_none_of_comesTo {fuel : ℕ} {call : ParseCall}
    (hcomes : ComesTo files lines configMap call) {r : Bool × ConfigMap}
    (h : parseLines (parseConfigFile files fuel) lines configMap = some r) :
    parseConfigFile files fuel call.1 call.2 ≠ none := by
  induction hcomes generalizing r with
  | here hline =>
    simp only [parseLines, hline] at h
    obtain ⟨r', hfile, -⟩ := Option.bind_eq_some_iff.mp h
    simp [hfile]
  | idle hline _ ih =>
    simp only [parseLines, hline] at h
    exact ih h
  | entry hline hkey _ ih =>
    simp only [parseLines, hline, hkey] at h
    exact ih h
  | behind hline hreturns _ ih =>
    simp only [parseLines, hline] at h
    obtain ⟨r', hfile, hrest⟩ := Option.bind_eq_some_iff.mp h
    obtain rfl := (parseConfigFile_returns_of_eq hfile).unique hreturns
    exact ih hrest

/-- The loop returns if the parser does for the files that it comes to. -/
theorem parseLines_returns_of_comesTo
    (h : ∀ call, ComesTo files lines configMap call →
      ∃ r, Returns (fun fuel => parseConfigFile files fuel call.1 call.2) r) :
    ∃ r, Returns (fun fuel => parseLines (parseConfigFile files fuel) lines configMap) r := by
  induction lines generalizing configMap with
  | nil => exact ⟨(true, configMap), returns_const _⟩
  | cons line rest ih =>
    cases hline : configLine line with
    | idle =>
      simp only [parseLines, hline]
      exact ih fun call hcomes => h call (.idle hline hcomes)
    | entry key val =>
      simp only [parseLines, hline]
      cases hkey : configMap.lookup key with
      | none => exact ih fun call hcomes => h call (.entry hline hkey hcomes)
      | some old => exact ⟨_, returns_const _⟩
    | inclusion fileName =>
      simp only [parseLines, hline]
      obtain ⟨⟨ret, middle⟩, hfile⟩ := h _ (.here hline)
      cases ret with
      | false => exact ⟨_, hfile.bind (returns_const _)⟩
      | true =>
        obtain ⟨r, hr⟩ := ih fun call hcomes => h call (.behind hline hfile hcomes)
        exact ⟨r, hfile.bind hr⟩

end

/-! ## The maps of the calls -/

/-- The entry of a line. -/
def entryOf (line : List UInt8) : Option (List UInt8 × List UInt8) :=
  match configLine line with
  | .entry key val => some (key, val)
  | _ => none

/-- The entries of all files. -/
def allEntries (files : FileSystem) : ConfigMap :=
  files.flatMap fun file => (Text.pieces newline (file.2.text.getD [])).filterMap entryOf

section

variable {files : FileSystem} {lines : List (List UInt8)} {configMap configMap' : ConfigMap}

/-- A file that is parsed is among the files. -/
theorem mem_of_text {fileName text : List UInt8} (h : (files.outcome fileName).text = some text) :
    (fileName, files.outcome fileName) ∈ files := by
  rw [FileSystem.outcome] at h ⊢
  cases hlookup : files.lookup fileName with
  | none =>
    rw [hlookup] at h
    cases h
  | some outcome =>
    obtain ⟨front, back, hfiles, -⟩ := List.lookup_eq_some_iff.mp hlookup
    rw [hfiles]
    exact List.mem_append_right _ List.mem_cons_self

/-- The entries of the lines of a file are among all entries. -/
theorem mem_allEntries {fileName text : List UInt8}
    (htext : (files.outcome fileName).text = some text) {line key val : List UInt8}
    (hmem : line ∈ Text.pieces newline text) (hline : configLine line = .entry key val) :
    (key, val) ∈ allEntries files := by
  rw [allEntries, List.mem_flatMap]
  refine ⟨_, mem_of_text htext, ?_⟩
  rw [htext, Option.getD_some, List.mem_filterMap]
  exact ⟨line, hmem, by rw [entryOf, hline]⟩

/-- A property of maps that is kept when a new key is added. -/
def KeptByEntries (files : FileSystem) (P : ConfigMap → Prop) : Prop :=
  ∀ ⦃configMap key val⦄, (key, val) ∈ allEntries files → configMap.lookup key = none →
    P configMap → P (configMap ++ [(key, val)])

variable {P : ConfigMap → Prop}

/-- What new keys keep, the loop over the lines keeps. -/
theorem parseLines_keeps (hkept : KeptByEntries files P)
    {parse : List UInt8 → ConfigMap → Option (Bool × ConfigMap)}
    (hparse : ∀ fileName configMap r, P configMap → parse fileName configMap = some r → P r.2)
    (hlines : ∀ line ∈ lines, ∀ key val, configLine line = .entry key val →
      (key, val) ∈ allEntries files)
    {r : Bool × ConfigMap} (hP : P configMap)
    (h : parseLines parse lines configMap = some r) : P r.2 := by
  induction lines generalizing configMap with
  | nil =>
    cases h
    exact hP
  | cons line rest ih =>
    have hrest := fun other hmem => hlines other (List.mem_cons_of_mem line hmem)
    rw [parseLines] at h
    cases hline : configLine line with
    | idle =>
      simp only [hline] at h
      exact ih hrest hP h
    | entry key val =>
      simp only [hline] at h
      cases hkey : configMap.lookup key with
      | none =>
        simp only [hkey] at h
        have hentry := hlines line List.mem_cons_self key val hline
        exact ih hrest (hkept hentry hkey hP) h
      | some old =>
        simp only [hkey] at h
        cases h
        exact hP
    | inclusion fileName =>
      simp only [hline] at h
      obtain ⟨⟨ret, middle⟩, hfile, hnext⟩ := Option.bind_eq_some_iff.mp h
      have hmiddle : P middle := hparse fileName configMap _ hP hfile
      cases ret with
      | false =>
        cases hnext
        exact hmiddle
      | true => exact ih hrest hmiddle hnext

/-- What new keys keep, the parser keeps. -/
theorem parseConfigFile_keeps (hkept : KeptByEntries files P) {fuel : ℕ}
    {fileName : List UInt8} {r : Bool × ConfigMap} (hP : P configMap)
    (h : parseConfigFile files fuel fileName configMap = some r) : P r.2 := by
  induction fuel generalizing fileName configMap r with
  | zero => cases h
  | succ fuel ih =>
    rw [parseConfigFile] at h
    cases htext : (files.outcome fileName).text with
    | none =>
      simp only [htext] at h
      cases h
      exact hP
    | some text =>
      simp only [htext] at h
      exact parseLines_keeps hkept (fun _ _ _ hP h => ih hP h)
        (fun line hmem key val hline => mem_allEntries htext hmem hline) hP h

/-- What new keys keep holds of the map with which the loop comes to an include line. -/
theorem ComesTo.keeps (hkept : KeptByEntries files P) {call : ParseCall}
    (h : ComesTo files lines configMap call)
    (hlines : ∀ line ∈ lines, ∀ key val, configLine line = .entry key val →
      (key, val) ∈ allEntries files) (hP : P configMap) : P call.2 := by
  induction h with
  | here => exact hP
  | idle _ _ ih => exact ih (fun other hmem => hlines other (List.mem_cons_of_mem _ hmem)) hP
  | entry hline hkey _ ih =>
    have hentry := hlines _ List.mem_cons_self _ _ hline
    exact ih (fun other hmem => hlines other (List.mem_cons_of_mem _ hmem))
      (hkept hentry hkey hP)
  | behind _ hreturns _ ih =>
    obtain ⟨enough, henough⟩ := hreturns
    exact ih (fun other hmem => hlines other (List.mem_cons_of_mem _ hmem))
      (parseConfigFile_keeps hkept hP (henough enough le_rfl))

/-- What new keys keep, the calls of the parser keep. -/
theorem ParseCalls.keeps (hkept : KeptByEntries files P) {outer inner : ParseCall}
    (h : ParseCalls files outer inner) (hP : P outer.2) : P inner.2 := by
  obtain ⟨text, htext, hcomes⟩ := h
  exact hcomes.keeps hkept (fun line hmem key val hline => mem_allEntries htext hmem hline) hP

/-- A map that has grown by entries of the files. -/
def GrownFrom (files : FileSystem) (configMap configMap' : ConfigMap) : Prop :=
  ∃ added, configMap' = configMap ++ added ∧ added.Nodup ∧ added ⊆ allEntries files

/-- Adding a new key lets a map grow. -/
theorem keptByEntries_grownFrom (files : FileSystem) (configMap : ConfigMap) :
    KeptByEntries files (GrownFrom files configMap) := by
  rintro _ key val hentry hkey ⟨added, rfl, hnodup, hsub⟩
  refine ⟨added ++ [(key, val)], by rw [List.append_assoc], ?_, ?_⟩
  · have hnew : (key, val) ∉ added := by
      intro hmem
      rw [List.lookup_eq_none_iff] at hkey
      have hne := hkey (key, val) (List.mem_append_right _ hmem)
      simp at hne
    rw [List.nodup_append]
    refine ⟨hnodup, List.nodup_singleton _, ?_⟩
    intro x hx y hy heq
    rw [List.mem_singleton] at hy
    exact hnew (hy ▸ heq ▸ hx)
  · intro x hx
    obtain hx | hx := List.mem_append.mp hx
    · exact hsub hx
    · rw [List.mem_singleton.mp hx]
      exact hentry

/-- The maps of the calls that a call leads to have grown from its map. -/
theorem grownFrom_of_reach {call inner : ParseCall}
    (hreach : ReflTransGen (ParseCalls files) call inner) :
    GrownFrom files call.2 inner.2 := by
  induction hreach with
  | refl => exact ⟨[], by simp, by simp, by simp⟩
  | tail _ hcall ih => exact hcall.keeps (keptByEntries_grownFrom files call.2) ih

/-- The calls that a call leads to, with further calls of their own, are finitely many. -/
theorem finite_calls (files : FileSystem) (call : ParseCall) :
    {inner | ReflTransGen (ParseCalls files) call inner ∧
      ∃ last, ParseCalls files inner last}.Finite := by
  have hmaps : {configMap | GrownFrom files call.2 configMap}.Finite := by
    refine ((finite_nodup_lists (allEntries files)).image (call.2 ++ ·)).subset ?_
    rintro _ ⟨added, rfl, hadded⟩
    exact ⟨added, hadded, rfl⟩
  refine ((finite_names files).prod hmaps).subset ?_
  rintro inner ⟨hreach, last, text, htext, -⟩
  have hname : inner.1 ∈ files.map Prod.fst :=
    List.mem_map.mpr ⟨_, mem_of_text htext, rfl⟩
  exact ⟨hname, grownFrom_of_reach hreach⟩

end

/-! ## Termination -/

/-- **Termination.** `ParseConfigFile` returns if and only if it never comes to an
include line of a file that is being parsed with the map unchanged since then. -/
theorem parseConfigFile_returns_iff (files : FileSystem) (root : List UInt8)
    (configMap : ConfigMap) :
    (∃ r, Returns (fun fuel => parseConfigFile files fuel root configMap) r) ↔
      ¬ Reenters files (root, configMap) := by
  let run : ℕ → ParseCall → Option (Bool × ConfigMap) :=
    fun fuel call => parseConfigFile files fuel call.1 call.2
  have hzero : ∀ call, run 0 call = none := fun _ => rfl
  refine returns_iff_no_cycle hzero ?_ ?_ (finite_calls files (root, configMap))
  · rintro fuel outer inner r ⟨text, htext, hcomes⟩ hr
    change parseConfigFile files (fuel + 1) outer.1 outer.2 = some r at hr
    rw [parseConfigFile, htext] at hr
    exact parse_ne_none_of_comesTo hcomes hr
  · intro call hinner
    apply exists_returns_of_succ
    change ∃ r, Returns (fun fuel => parseConfigFile files (fuel + 1) call.1 call.2) r
    simp only [parseConfigFile]
    cases htext : (files.outcome call.1).text with
    | none => exact ⟨_, returns_const _⟩
    | some text =>
      exact parseLines_returns_of_comesTo fun inner hcomes => hinner inner ⟨text, htext, hcomes⟩

section

variable {files : FileSystem} {lines : List (List UInt8)} {configMap configMap' : ConfigMap}

/-- New keys keep a map from becoming shorter. -/
theorem keptByEntries_length (files : FileSystem) (n : ℕ) :
    KeptByEntries files fun configMap => n ≤ configMap.length := by
  intro configMap key val _ _ hle
  rw [List.length_append]
  omega

/-- An include line that is reached without a new key stands before all key lines. -/
theorem ComesTo.leads {call : ParseCall} (h : ComesTo files lines configMap call)
    (hlines : ∀ line ∈ lines, ∀ key val, configLine line = .entry key val →
      (key, val) ∈ allEntries files) (hlength : call.2.length ≤ configMap.length) :
    ∃ front line back, lines = front ++ line :: back ∧ configLine line = .inclusion call.1 ∧
      ∀ l ∈ front, ∀ key val, configLine l ≠ .entry key val := by
  induction h with
  | @here line fileName rest _ hline => exact ⟨[], line, rest, rfl, hline, by simp⟩
  | @idle line rest _ _ hline _ ih =>
    have hrest := fun other hmem => hlines other (List.mem_cons_of_mem line hmem)
    obtain ⟨front, other, back, rfl, hother, hfront⟩ := ih hrest hlength
    refine ⟨line :: front, other, back, rfl, hother, List.forall_mem_cons.mpr ⟨?_, hfront⟩⟩
    intro key val
    rw [hline]
    exact ConfigLine.noConfusion
  | @entry line key val rest configMap _ _ _ hcomes ih =>
    -- The key would have made the map longer.
    have hrest := fun other hmem => hlines other (List.mem_cons_of_mem line hmem)
    have hlonger := hcomes.keeps
      (keptByEntries_length files (configMap ++ [(key, val)]).length) hrest le_rfl
    rw [List.length_append, List.length_singleton] at hlonger
    omega
  | @behind line fileName rest configMap middle _ hline hreturns hcomes ih =>
    have hrest := fun other hmem => hlines other (List.mem_cons_of_mem line hmem)
    obtain ⟨enough, henough⟩ := hreturns
    have hmiddle := parseConfigFile_keeps
      (keptByEntries_length files configMap.length) le_rfl (henough enough le_rfl)
    obtain ⟨front, other, back, rfl, hother, hfront⟩ := ih hrest (hlength.trans hmiddle)
    refine ⟨line :: front, other, back, rfl, hother, List.forall_mem_cons.mpr ⟨?_, hfront⟩⟩
    intro key val
    rw [hline]
    exact ConfigLine.noConfusion

/-- A call with an unchanged map is one of a file that is included before all keys. -/
theorem ParseCalls.leadsTo {outer inner : ParseCall} (h : ParseCalls files outer inner)
    (hlength : inner.2.length ≤ outer.2.length) : LeadsTo files outer.1 inner.1 := by
  obtain ⟨text, htext, hcomes⟩ := h
  exact ⟨text, htext, hcomes.leads
    (fun line hmem key val hline => mem_allEntries htext hmem hline) hlength⟩

/-- Calls with unchanged maps follow files that are included before all keys. -/
theorem transGen_leadsTo {outer inner : ParseCall}
    (h : TransGen (ParseCalls files) outer inner) (hlength : inner.2.length ≤ outer.2.length) :
    TransGen (LeadsTo files) outer.1 inner.1 := by
  induction h with
  | single hcall => exact .single (hcall.leadsTo hlength)
  | @tail middle last hcalls hcall ih =>
    have hfirst : outer.2.length ≤ middle.2.length := by
      obtain ⟨added, hadded, -⟩ := grownFrom_of_reach hcalls.to_reflTransGen
      rw [hadded, List.length_append]
      omega
    have hlast := hcall.keeps (keptByEntries_length files middle.2.length) le_rfl
    exact (ih (hlast.trans hlength)).tail (hcall.leadsTo (hlength.trans hfirst))

/-- `ParseConfigFile` returns when in every include cycle some include line stands
behind a key. -/
theorem parseConfigFile_returns_of_keys_first
    (hkeys : ∀ file, ¬ TransGen (LeadsTo files) file file) (root : List UInt8)
    (configMap : ConfigMap) :
    ∃ r, Returns (fun fuel => parseConfigFile files fuel root configMap) r := by
  rw [parseConfigFile_returns_iff]
  rintro ⟨inner, -, hcycle⟩
  exact hkeys inner.1 (transGen_leadsTo hcycle le_rfl)

end

/-- The line `include c` of the file `c`. -/
def selfFile : List UInt8 := [105, 110, 99, 108, 117, 100, 101, 32, 99, 10]

/-- A file that includes itself on its first line is parsed for ever. -/
theorem parseConfigFile_selfFile_diverges :
    ¬ ∃ r, Returns
      (fun fuel => parseConfigFile [(confName, .contents selfFile)] fuel confName []) r := by
  rintro ⟨r, enough, henough⟩
  have hnone : ∀ fuel,
      parseConfigFile [(confName, .contents selfFile)] fuel confName [] = none := by
    intro fuel
    induction fuel with
    | zero => rfl
    | succ fuel ih =>
      have htext : (FileSystem.outcome [(confName, .contents selfFile)] confName).text =
          some selfFile := by decide
      have hlines : Text.pieces newline selfFile = [selfFile.dropLast] := by decide
      have hline : configLine selfFile.dropLast = .inclusion confName := by decide
      rw [parseConfigFile, htext]
      simp only [hlines, parseLines, hline, ih, Option.bind_none]
  cases (hnone enough).symm.trans (henough enough le_rfl)

end ThriftProxy
