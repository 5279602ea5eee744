import Externs.Command
import Externs.Proofs.File.Ways

/-!
# Settings and the errors that are told

The settings of a directory are read from its file, each key by itself. What hinders that is told as an
error of the settings if the file cannot be read, is no document, or is none with keys. The rest is not
told: the path leads to a home that is not known, has a null character or is too long, a value in the file
does not exist or the host reads documents with an error of its own, or a number is too long to be written
out. All this is so whatever the host is.

* `Settings.ofKeys`: the settings that the values of a document give, each key by itself.
* `FileTree.Keeps`: what document there is in a file.
* `Settings.Untold`: what is not told.
* `Settings.load_tells`: when there are settings, and which errors are not told.
* `wrongMonth_untold`: a date that does not exist is not told.
-/

namespace Externs

open Yaml (Value Document)

/-- An error comes from the first part or from the second. -/
theorem of_bind_eq_error {ε α β : Type} {x : Except ε α} {f : α → Except ε β} {e : ε} (h : x >>= f = .error e) :
    x = .error e ∨ ∃ a, x = .ok a ∧ f a = .error e := by
  cases x with
  | error e' =>
    cases h
    exact Or.inl rfl
  | ok a => exact Or.inr ⟨a, rfl, h⟩

/-- A number with more digits than are written out. -/
def Yaml.Value.isLong : Option Value → Bool
  | some (.int n) => maxDigits < (Nat.toDigits 10 n.natAbs).length
  | _ => false

namespace Settings

/-- The text that a value gives, if it is a text or a number; an empty one is none. -/
def given? (v : Option Value) : Option String :=
  let text := match v with
    | some (.str s) => some s
    | some (.int n) => some (toString n)
    | some (.float x) => some (Decimal.floatText x)
    | _ => none
  text.filter fun s => !s.isEmpty

/-- The settings that the values of three keys give, each by itself. -/
def ofKeys (root : Path) (extension echo logFile : Option Value) : Settings where
  root := root
  extension := ((given? extension).map dotted).getD defaultExtension
  echo := (echo.bind Value.truth?).getD true
  logFile := (given? logFile).map fun s => root.join (.ofString s)

/-- The settings in a document. -/
def inDocument (root : Path) (d : Document) : Settings :=
  ofKeys root (d.get "output_extension") (d.get "echo") (d.get "log_file")

/-- The document has a text setting that is a number too long to be written out. -/
def isLong (d : Document) : Bool := Value.isLong (d.get "output_extension") || Value.isLong (d.get "log_file")

variable {root : Path} {d : Document}

theorem head?_dotted (s : String) : (dotted s).toList.head? = some '.' := by
  unfold dotted
  split
  · assumption
  · rw [String.toList_append]
    rfl

/-- An extension starts with a dot, whatever the file has under its key. -/
theorem head?_extension (root : Path) (extension echo logFile : Option Value) :
    (ofKeys root extension echo logFile).extension.toList.head? = some '.' := by
  unfold ofKeys
  dsimp only
  cases given? extension with
  | none => rfl
  | some s => exact head?_dotted s

theorem textOf_eq (d : Document) (key : String) : textOf d key =
    if Value.isLong (d.get key) then .error (.value (.digits none)) else .ok (given? (d.get key)) := by
  unfold textOf
  cases d.get key with
  | none => rfl
  | some v =>
    cases v with
    | int n =>
      unfold Value.isLong Value.text?
      simp only [decide_eq_true_eq]
      split <;> rfl
    | _ => rfl

/-- What a document with keys gives, or none at all. -/
theorem ofDocument_eq (root : Path) (hd : d ≠ .other) :
    ofDocument root d = if isLong d then .error (.value (.digits none)) else .ok (inDocument root d) := by
  unfold ofDocument isLong
  cases d with
  | other => exact absurd rfl hd
  | absent => rfl
  | mapping entries =>
    simp only [textOf_eq]
    cases Value.isLong (Document.get (.mapping entries) "output_extension") with
    | true => rfl
    | false => cases Value.isLong (Document.get (.mapping entries) "log_file") <;> rfl

end Settings

/-! ## Where the settings are -/

namespace Host

variable {host : Host} {user : String} {p : Path} {e : SettingsError}

/-- A user is at home nowhere if there cannot be such a user, or if the host knows of no home. -/
theorem home_eq_error_iff : host.home user = .error e ↔
    '\x00' ∈ user.toList ∧ e = .place ⟨.null, user, none⟩ ∨
    '\x00' ∉ user.toList ∧ (∀ text, host.homes user = some text → text.toList.head? = some '~') ∧ e = .home := by
  unfold home
  by_cases hnull : '\x00' ∈ user.toList
  · simp [hnull, eq_comm]
  · cases host.homes user with
    | none => simp [hnull, eq_comm]
    | some text =>
      by_cases htilde : text.toList.head? = some '~'
      · simp [hnull, htilde, eq_comm]
      · simp only [List.contains_eq_mem, hnull, decide_false, Bool.false_eq_true, ite_false, htilde, false_and,
          false_or, Option.some.injEq, forall_eq', and_false]
        split <;> exact iff_of_false nofun id

/-- Only a path that starts from the home of a user can fail to be expanded. -/
theorem expandHome_eq_error_iff : host.expandHome p = .error e ↔
    ∃ user rest, p.root = "" ∧ p.parts = ("~" ++ user) :: rest ∧ host.home user = .error e := by
  obtain ⟨root, parts⟩ := p
  unfold expandHome
  dsimp only
  split
  · rename_i part rest hroot
    split
    · rename_i user hpart
      have hname : part = "~" ++ String.ofList user := by
        rw [← String.toList_inj, hpart]
        simp
      constructor
      · intro h
        cases hhome : host.home (String.ofList user) with
        | error e' =>
          rw [hhome] at h
          cases h
          exact ⟨_, rest, String.isEmpty_iff.1 hroot, by rw [hname], hhome⟩
        | ok home =>
          rw [hhome] at h
          cases h
      · rintro ⟨user', rest', -, hparts, hhome⟩
        obtain ⟨hpart', -⟩ := List.cons.inj hparts
        have huser : String.ofList user = user' := by
          rw [hname, ← String.toList_inj, String.toList_append, String.toList_append] at hpart'
          exact String.toList_inj.1 (List.append_cancel_left hpart')
        rw [huser, hhome]
        rfl
    · rename_i hpart
      refine iff_of_false nofun ?_
      rintro ⟨user, rest', -, hparts, -⟩
      refine hpart user.toList ?_
      rw [(List.cons.inj hparts).1, String.toList_append]
      rfl
  · rename_i hparts
    refine iff_of_false nofun ?_
    rintro ⟨user, rest, rfl, rfl, -⟩
    exact hparts ("~" ++ user) rest rfl rfl

end Host

namespace FileTree

variable {t : FileTree} {dir : Place} {host : Host} {p file : Path}

/-- The document in a file: none if the file is not there or blank. -/
inductive Keeps (t : FileTree) (dir : Place) (host : Host) (file : Path) : Document → Prop
  | missing (look : t.look dir file = .ok none) : Keeps t dir host file .absent
  | blank {e : Entry} {cs : List Char} (look : t.look dir file = .ok (some e)) (read : t.readText dir file = .ok cs)
      (blank : cs.all isSpace = true) : Keeps t dir host file .absent
  | text {e : Entry} {cs : List Char} {d : Document} (look : t.look dir file = .ok (some e))
      (read : t.readText dir file = .ok cs) (text : cs.all isSpace = false) (load : host.yaml cs = .ok d)
      (keyed : d ≠ .other) : Keeps t dir host file d

/-- A path cannot be looked at just if it, or a name on it, is too long. -/
theorem look_eq_error_iff {e : SettingsError} :
    t.look dir p = .error e ↔ t.stat dir p = .error .nameTooLong ∧ e = .place ⟨.nameTooLong, p.toString, none⟩ := by
  constructor
  · intro h
    unfold look at h
    cases hstat : t.stat dir p with
    | ok entry =>
      rw [hstat] at h
      cases h
    | error f =>
      rw [hstat] at h
      rcases stat_error hstat with rfl | rfl | rfl | rfl <;> cases h
      exact ⟨rfl, rfl⟩
  · rintro ⟨h, rfl⟩
    unfold look
    rw [h]

end FileTree

namespace Settings

open FileTree

variable {t : FileTree} {dir : Place} {host : Host} {p file : Path} {e : SettingsError} {d : Document}

/-- Why there are no settings without this being told as an error of the settings. -/
inductive Untold (t : FileTree) (dir : Place) (host : Host) (p : Path) : SettingsError → Prop
  /-- The path leads to the home of a user that the host has no home for, or one that is in turn the home
  of a user. -/
  | home {user : String} {rest : List String} (relative : p.root = "") (parts : p.parts = ("~" ++ user) :: rest)
      (named : '\x00' ∉ user.toList)
      (unknown : ∀ text, host.homes user = some text → text.toList.head? = some '~') : Untold t dir host p .home
  /-- It leads to the home of a user whose name has a null character. -/
  | user {user : String} {rest : List String} (relative : p.root = "") (parts : p.parts = ("~" ++ user) :: rest)
      (null : '\x00' ∈ user.toList) : Untold t dir host p (.place ⟨.null, user, none⟩)
  /-- The path, or a name on it, is too long. -/
  | path {q : Path} (expand : host.expandHome p = .ok q) (long : t.stat dir q = .error .nameTooLong) :
      Untold t dir host p (.place ⟨.nameTooLong, q.toString, none⟩)
  /-- The path of the file that it leads to has a null character. -/
  | null {q : Path} {found : Option Entry} (expand : host.expandHome p = .ok q) (look : t.look dir q = .ok found)
      (null : (settingsFor found q).hasNull = true) :
      Untold t dir host p (.place ⟨.null, (settingsFor found q).toString, none⟩)
  /-- The path of this file, or a name on it, is too long. -/
  | file {file : Path} (path : settingsPath t dir host p = .ok file) (long : t.stat dir file = .error .nameTooLong) :
      Untold t dir host p (.place ⟨.nameTooLong, file.toString, none⟩)
  /-- The file has a value that does not exist, or it is read with another error. -/
  | value {file : Path} {e : Entry} {cs : List Char} {f : Yaml.ValueFault} (path : settingsPath t dir host p = .ok file)
      (look : t.look dir file = .ok (some e)) (read : t.readText dir file = .ok cs) (text : cs.all isSpace = false)
      (load : host.yaml cs = .error (.value f)) : Untold t dir host p (.value f)
  /-- The file has a number that is too long to be written out. -/
  | digits {file : Path} {d : Document} (path : settingsPath t dir host p = .ok file) (keeps : t.Keeps dir host file d)
      (long : isLong d = true) : Untold t dir host p (.value (.digits none))

theorem resolve_eq_error_iff :
    p.resolve dir = .error e ↔ p.hasNull = true ∧ e = .place ⟨.null, p.toString, none⟩ := by
  unfold Path.resolve
  cases p.hasNull <;> simp [eq_comm]

theorem settingsPath_eq_error_iff : settingsPath t dir host p = .error e ↔
    host.expandHome p = .error e ∨ ∃ q, host.expandHome p = .ok q ∧
      (t.look dir q = .error e ∨ ∃ found, t.look dir q = .ok found ∧ (settingsFor found q).resolve dir = .error e) := by
  constructor
  · intro h
    unfold settingsPath at h
    rcases of_bind_eq_error h with hexpand | ⟨q, hexpand, h⟩
    · exact Or.inl hexpand
    · rcases of_bind_eq_error h with hlook | ⟨found, hlook, hresolve⟩
      · exact Or.inr ⟨q, hexpand, Or.inl hlook⟩
      · exact Or.inr ⟨q, hexpand, Or.inr ⟨found, hlook, hresolve⟩⟩
  · unfold settingsPath
    rintro (hexpand | ⟨q, hexpand, hlook | ⟨found, hlook, hresolve⟩⟩)
    · rw [hexpand]
      rfl
    · rw [hexpand]
      change (t.look dir q >>= _) = _
      rw [hlook]
      rfl
    · rw [hexpand]
      change (t.look dir q >>= _) = _
      rw [hlook]
      exact hresolve

/-- The path of the settings fails to lead to a file for reasons that are untold. -/
theorem Untold.of_settingsPath (h : settingsPath t dir host p = .error e) : Untold t dir host p e := by
  rcases settingsPath_eq_error_iff.1 h with hexpand | ⟨q, hexpand, hlook | ⟨found, hlook, hresolve⟩⟩
  · obtain ⟨user, rest, hroot, hparts, hhome⟩ := Host.expandHome_eq_error_iff.1 hexpand
    rcases Host.home_eq_error_iff.1 hhome with ⟨hnull, rfl⟩ | ⟨hnamed, hunknown, rfl⟩
    · exact .user hroot hparts hnull
    · exact .home hroot hparts hnamed hunknown
  · obtain ⟨hlong, rfl⟩ := look_eq_error_iff.1 hlook
    exact .path hexpand hlong
  · obtain ⟨hnull, rfl⟩ := resolve_eq_error_iff.1 hresolve
    exact .null hexpand hlook hnull

/-- Without a path to a file there are no settings. -/
theorem load_of_path_error (h : settingsPath t dir host p = .error e) : load t dir host p = .error e := by
  unfold load
  rw [h]
  rfl

/-- The settings in the file that a path leads to. -/
theorem load_of_path (h : settingsPath t dir host p = .ok file) : load t dir host p =
    (t.look dir file >>= fun found => if found.isNone then .ok { root := file.parent }
      else match t.readText dir file with
        | .error f => .error (.unreadable file.name f)
        | .ok cs => ofText host file.parent file.name cs) := by
  unfold load
  rw [h]
  rfl

/-- What is in a file that is not blank is read as a document. -/
theorem load_of_text (hpath : settingsPath t dir host p = .ok file) {entry : Entry} {cs : List Char}
    (look : t.look dir file = .ok (some entry)) (read : t.readText dir file = .ok cs)
    (text : cs.all isSpace = false) : load t dir host p = match host.yaml cs with
      | .error .malformed => .error (.malformed file.name)
      | .error (.value f) => .error (.value f)
      | .ok d => ofDocument file.parent d := by
  have hof : load t dir host p = ofText host file.parent file.name cs := by
    rw [load_of_path hpath, look, read]
    rfl
  have hblank : ¬ cs.all isSpace = true := by
    rw [text]
    exact Bool.false_ne_true
  refine (hof.trans (if_neg hblank)).trans ?_
  cases host.yaml cs with
  | error f => cases f <;> rfl
  | ok d => rfl

theorem load_of_keeps (hpath : settingsPath t dir host p = .ok file) (h : t.Keeps dir host file d) :
    load t dir host p =
      if isLong d then .error (.value (.digits none)) else .ok (inDocument file.parent d) := by
  cases h with
  | missing look =>
    rw [load_of_path hpath, look]
    rfl
  | blank look read blank =>
    rw [load_of_path hpath, look, read]
    exact if_pos blank
  | text look read text load keyed =>
    rw [load_of_text hpath look read text, load]
    exact ofDocument_eq file.parent keyed

/-- What is not told is met. -/
theorem Untold.load (h : Untold t dir host p e) : Settings.load t dir host p = .error e := by
  cases h with
  | home relative parts named unknown =>
    have hhome : host.home _ = _ := Host.home_eq_error_iff.2 (Or.inr ⟨named, unknown, rfl⟩)
    exact load_of_path_error <| settingsPath_eq_error_iff.2 <|
      Or.inl (Host.expandHome_eq_error_iff.2 ⟨_, _, relative, parts, hhome⟩)
  | user relative parts null =>
    have hhome : host.home _ = _ := Host.home_eq_error_iff.2 (Or.inl ⟨null, rfl⟩)
    exact load_of_path_error <| settingsPath_eq_error_iff.2 <|
      Or.inl (Host.expandHome_eq_error_iff.2 ⟨_, _, relative, parts, hhome⟩)
  | path expand long =>
    exact load_of_path_error <| settingsPath_eq_error_iff.2 <|
      Or.inr ⟨_, expand, Or.inl (look_eq_error_iff.2 ⟨long, rfl⟩)⟩
  | null expand look null =>
    exact load_of_path_error <| settingsPath_eq_error_iff.2 <|
      Or.inr ⟨_, expand, Or.inr ⟨_, look, resolve_eq_error_iff.2 ⟨null, rfl⟩⟩⟩
  | file path long =>
    rw [load_of_path path, look_eq_error_iff.2 ⟨long, rfl⟩]
    rfl
  | value path look read text load => rw [load_of_text path look read text, load]
  | digits path keeps long => rw [load_of_keeps path keeps, if_pos long]

theorem Untold.isTold (h : Untold t dir host p e) : e.isTold = false := by cases h <;> rfl

/-- The ends of loading settings. -/
inductive Loads (t : FileTree) (dir : Place) (host : Host) (p : Path) : Except SettingsError Settings → Prop
  | settings {file : Path} {d : Document} (path : settingsPath t dir host p = .ok file)
      (keeps : t.Keeps dir host file d) (short : isLong d = false) : Loads t dir host p (.ok (inDocument file.parent d))
  | told {e : SettingsError} (told : e.isTold = true) : Loads t dir host p (.error e)
  | untold {e : SettingsError} (untold : Untold t dir host p e) : Loads t dir host p (.error e)

/-- A document with keys gives settings, or has a number that is too long. -/
theorem loads_of_keeps (hpath : settingsPath t dir host p = .ok file) (h : t.Keeps dir host file d) :
    Loads t dir host p (load t dir host p) := by
  rw [load_of_keeps hpath h]
  cases hlong : isLong d with
  | true => exact .untold (.digits hpath h hlong)
  | false => exact .settings hpath h hlong

theorem loads_of_text (hpath : settingsPath t dir host p = .ok file) {entry : Entry} {cs : List Char}
    (look : t.look dir file = .ok (some entry)) (read : t.readText dir file = .ok cs)
    (text : cs.all isSpace = false) : Loads t dir host p (load t dir host p) := by
  cases hdoc : host.yaml cs with
  | error f =>
    cases f with
    | malformed =>
      rw [load_of_text hpath look read text, hdoc]
      exact .told rfl
    | value f =>
      have huntold : Untold t dir host p _ := .value hpath look read text hdoc
      rw [huntold.load]
      exact .untold huntold
  | ok d =>
    by_cases hkeyed : d = .other
    · rw [load_of_text hpath look read text, hdoc, hkeyed]
      exact .told rfl
    · exact loads_of_keeps hpath (.text look read text hdoc hkeyed)

theorem loads_of_path (hpath : settingsPath t dir host p = .ok file) : Loads t dir host p (load t dir host p) := by
  cases hlook : t.look dir file with
  | error e =>
    obtain ⟨hlong, rfl⟩ := look_eq_error_iff.1 hlook
    have huntold : Untold t dir host p _ := .file hpath hlong
    rw [huntold.load]
    exact .untold huntold
  | ok found =>
    cases found with
    | none => exact loads_of_keeps hpath (.missing hlook)
    | some entry =>
      cases hread : t.readText dir file with
      | error f =>
        rw [load_of_path hpath, hlook, hread]
        exact .told rfl
      | ok cs =>
        cases hblank : cs.all isSpace with
        | true => exact loads_of_keeps hpath (.blank hlook hread hblank)
        | false => exact loads_of_text hpath hlook hread hblank

/-- **Loading settings ends in one of these ways.** -/
theorem load_loads (t : FileTree) (dir : Place) (host : Host) (p : Path) : Loads t dir host p (load t dir host p) := by
  cases hpath : settingsPath t dir host p with
  | error e =>
    rw [load_of_path_error hpath]
    exact .untold (.of_settingsPath hpath)
  | ok file => exact loads_of_path hpath

theorem load_eq_ok_iff {s : Settings} : load t dir host p = .ok s ↔
    ∃ file d, settingsPath t dir host p = .ok file ∧ t.Keeps dir host file d ∧ isLong d = false ∧
      s = inDocument file.parent d := by
  constructor
  · intro h
    have hloads := load_loads t dir host p
    rw [h] at hloads
    cases hloads with
    | settings path keeps short => exact ⟨_, _, path, keeps, short, rfl⟩
  · rintro ⟨file, d, hpath, hkeeps, hshort, rfl⟩
    rw [load_of_keeps hpath hkeeps, if_neg (by rw [hshort]; exact Bool.false_ne_true)]

theorem untold_iff : load t dir host p = .error e ∧ e.isTold = false ↔ Untold t dir host p e := by
  constructor
  · rintro ⟨h, hnot⟩
    have hloads := load_loads t dir host p
    rw [h] at hloads
    cases hloads with
    | told told => rw [told] at hnot; cases hnot
    | untold untold => exact untold
  · exact fun h => ⟨h.load, h.isTold⟩

/-- What settings are like that come from the values of a document in the directory `root`. -/
structure Sound (root : Path) (d : Document) (s : Settings) : Prop where
  /-- The directory, and for each setting only the value of its own key. -/
  keys : s = ofKeys root (d.get "output_extension") (d.get "echo") (d.get "log_file")
  /-- The extension starts with a dot. -/
  dotted : s.extension.toList.head? = some '.'
  /-- The log file is the given one, seen from the directory, or there is none. -/
  log : s.logFile = none ∨ ∃ text, given? (d.get "log_file") = some text ∧ s.logFile = some (root.join (.ofString text))

theorem inDocument_sound (root : Path) (d : Document) : Sound root d (inDocument root d) where
  keys := rfl
  dotted := head?_extension root _ _ _
  log := by
    unfold inDocument ofKeys
    dsimp only
    cases hgiven : given? (d.get "log_file") with
    | none => exact Or.inl rfl
    | some text => exact Or.inr ⟨text, rfl, rfl⟩

/-- How loading settings ends. -/
structure Tells (t : FileTree) (dir : Place) (host : Host) (p : Path) : Prop where
  /-- There are settings just if the file keeps a document without a number that is too long. -/
  ok_iff : (∃ s, load t dir host p = .ok s) ↔
    ∃ file d, settingsPath t dir host p = .ok file ∧ t.Keeps dir host file d ∧ isLong d = false
  sound : ∀ {s}, load t dir host p = .ok s →
    ∃ file d, settingsPath t dir host p = .ok file ∧ t.Keeps dir host file d ∧ Sound file.parent d s
  /-- All else is told as an error of the settings, but for these errors. -/
  untold_iff : ∀ e, load t dir host p = .error e ∧ e.isTold = false ↔ Untold t dir host p e

/-- **Settings are loaded as the file has them, or it is told why not, unless they are untold.** -/
theorem load_tells (t : FileTree) (dir : Place) (host : Host) (p : Path) : Tells t dir host p where
  ok_iff := by
    constructor
    · rintro ⟨s, hs⟩
      obtain ⟨file, d, hpath, hkeeps, hshort, -⟩ := load_eq_ok_iff.1 hs
      exact ⟨file, d, hpath, hkeeps, hshort⟩
    · rintro ⟨file, d, hpath, hkeeps, hshort⟩
      exact ⟨_, load_eq_ok_iff.2 ⟨file, d, hpath, hkeeps, hshort, rfl⟩⟩
  sound hs := by
    obtain ⟨file, d, hpath, hkeeps, -, rfl⟩ := load_eq_ok_iff.1 hs
    exact ⟨file, d, hpath, hkeeps, inDocument_sound file.parent d⟩
  untold_iff _ := untold_iff

/-- Settings with a date that does not exist. -/
def wrongMonth : FileTree := ⟨[([settingsName], .file "output_extension: 2020-13-45\n".toUTF8.toList)]⟩

/-- The month is not told as an error of the settings. -/
theorem wrongMonth_untold : ∃ e, load wrongMonth [] (.single "/") ⟨"", []⟩ = .error e ∧ e.isTold = false :=
  ⟨.value .month, by decide +kernel, rfl⟩

end Settings

end Externs
