import CliffordT.Config.Load
import CliffordT.Proofs.SpelledValues
import Mathlib.Data.List.Nodup

/-!
# Where a parameter comes from

The parameters are loaded from the flags, the environment, the file `.env` and a file of settings (`Sources`).  For each
key the entries under its own names decide, in this order: the last flag given, the variable if it is not empty, the
setting of the file, the default (`Sources.value`).  The names follow from that of the key; the flags, the settings that
they set, the variables and the defaults have them, each in a list of its own (`Key.named`).

Loading first merges the environment with the variables of `.env` (`lookup_environment`) and the settings by their
names in lower case (`lookup_lowered`), and then sets the parameters one by one (`assemble_eq`).  No step mixes the
entries of different keys, so the parameters are those that the sources give key by key (`load_by_precedence`).
-/

namespace CliffordT

/-! ### Association lists -/

section

variable {β : Type}

private theorem lookup_filter_name (l : List (String × β)) (a : String) :
    (l.filter fun e => e.1 = a).lookup a = l.lookup a := by
  induction l with
  | nil => rfl
  | cons e l ih =>
    obtain ⟨b, x⟩ := e
    by_cases hb : b = a
    · subst hb
      simp
    · have hne : (a == b) = false := beq_false_of_ne (Ne.symm hb)
      rw [List.filter_cons_of_neg (by simpa using hb), ih, List.lookup_cons, hne]

private theorem lookup_eq_none_of_not_mem {l : List (String × β)} {a : String} (h : a ∉ l.map Prod.fst) :
    l.lookup a = none := by
  rw [List.lookup_eq_none_iff]
  intro e he
  simpa using fun hea : a = e.1 => h (hea ▸ List.mem_map_of_mem he)

/-- Where every name stands once, leaving entries out leaves their names unknown. -/
private theorem lookup_filter_of_nodup {l : List (String × β)} (h : (l.map Prod.fst).Nodup) (keep : String × β → Bool)
    (a : String) : (l.filter keep).lookup a = (l.lookup a).filter fun x => keep (a, x) := by
  induction l with
  | nil => rfl
  | cons e l ih =>
    obtain ⟨b, x⟩ := e
    rw [List.map_cons, List.nodup_cons] at h
    have hrest := ih h.2
    by_cases hb : a = b
    · subst hb
      have hnone := lookup_eq_none_of_not_mem h.1
      rw [hnone] at hrest
      cases hkeep : keep (a, x) with
      | true => simp [hkeep, Option.filter]
      | false => simp [hkeep, hrest, Option.filter]
    · have hne : (a == b) = false := beq_false_of_ne hb
      cases hkeep : keep (b, x) with
      | true => simp [hkeep, List.lookup_cons, hne, hrest]
      | false => simp [hkeep, List.lookup_cons, hne, hrest]

end

namespace Config

/-! ### The environment -/

private theorem firstOfNames_step (found es : List (String × String)) (h : (found.map Prod.fst).Nodup) :
    let all := es.foldl (fun found e => if (found.lookup e.1).isSome then found else found ++ [e]) found
    (all.map Prod.fst).Nodup ∧ ∀ a, all.lookup a = (found.lookup a).or (es.lookup a) := by
  induction es generalizing found with
  | nil => exact ⟨h, fun a => by simp⟩
  | cons e es ih =>
    obtain ⟨b, x⟩ := e
    rw [List.foldl_cons]
    cases hb : found.lookup b with
    | some y =>
      rw [if_pos (by simp)]
      refine ⟨(ih found h).1, fun a => ?_⟩
      rw [(ih found h).2 a, List.lookup_cons]
      by_cases hab : a = b
      · simp [hab, hb]
      · rw [beq_false_of_ne hab]
    | none =>
      rw [if_neg (by simp)]
      have hfresh : b ∉ found.map Prod.fst := by
        intro hmem
        obtain ⟨e, he, rfl⟩ := List.mem_map.1 hmem
        simpa using List.lookup_eq_none_iff.1 hb e he
      have hnodup : ((found ++ [(b, x)]).map Prod.fst).Nodup := by
        rw [List.map_append, List.nodup_append]
        refine ⟨h, by simp, fun a ha b' hb' => ?_⟩
        obtain rfl : b' = b := by simpa using hb'
        exact fun hab => hfresh (hab ▸ ha)
      refine ⟨(ih _ hnodup).1, fun a => ?_⟩
      rw [(ih _ hnodup).2 a, List.lookup_append, List.lookup_cons, List.lookup_cons]
      by_cases hab : a = b
      · simp [hab, hb]
      · rw [beq_false_of_ne hab]
        simp

/-- A name and a value without a zero byte. -/
def withoutZero (e : String × String) : Bool := (e.1.toList ++ e.2.toList).all fun c => c.toNat ≠ 0

private theorem isVariable_eq : isVariable = withoutZero := by
  funext e
  simp only [isVariable, withoutZero, String.any, String.contains_bool_eq, List.all_eq_not_any_not, ne_eq, decide_not,
    Bool.not_not, List.any_append, Bool.not_or]

/-- A variable that the environment has, even as an empty one, hides the one of the file. -/
theorem lookup_environment (env added : List (String × String)) (a : String) :
    ((env ++ firstOfNames added).filter isVariable).lookup a =
      ((env.filter withoutZero).lookup a).or ((added.lookup a).filter fun x => withoutZero (a, x)) := by
  obtain ⟨hnodup, hlookup⟩ := firstOfNames_step [] added List.nodup_nil
  rw [List.filter_append, List.lookup_append, firstOfNames, lookup_filter_of_nodup hnodup, hlookup, isVariable_eq]
  rfl

/-! ### The settings -/

/-- The member of a file that counts for a name, in any case of letters: the last one with a capital letter, or else the
last one. -/
def member? (members : Members) (name : String) : Option (RawText × Setting) :=
  let own := members.filter fun m => Text.lower m.1.text = name
  (own.filter fun m => m.1.text ≠ name).getLast?.or own.getLast?

private theorem merged_step (ms : Members) (kept : Settings) (h : (kept.map Prod.fst).Nodup) :
    let all := ms.foldl (fun kept m =>
      (Text.lower m.1.text, m.2.lowered) :: kept.filter fun e => e.1 ≠ Text.lower m.1.text) kept
    (all.map Prod.fst).Nodup ∧ ∀ a, all.lookup a =
      ((ms.filter fun m => Text.lower m.1.text = a).getLast?.map fun m => m.2.lowered).or (kept.lookup a) := by
  induction ms generalizing kept with
  | nil => exact ⟨h, fun a => by simp⟩
  | cons m ms ih =>
    obtain ⟨b, x⟩ := m
    rw [List.foldl_cons]
    have hrest : ((kept.filter fun e => e.1 ≠ Text.lower b.text).map Prod.fst).Nodup :=
      h.sublist (List.filter_sublist.map Prod.fst)
    have hnodup : (((Text.lower b.text, x.lowered) :: kept.filter fun e => e.1 ≠ Text.lower b.text).map
        Prod.fst).Nodup := by
      rw [List.map_cons, List.nodup_cons]
      refine ⟨?_, hrest⟩
      rw [List.mem_map]
      rintro ⟨e, he, hname⟩
      simpa [hname] using (List.mem_filter.1 he).2
    refine ⟨(ih _ hnodup).1, fun a => ?_⟩
    rw [(ih _ hnodup).2 a, List.lookup_cons]
    by_cases hab : a = Text.lower b.text
    · rw [List.filter_cons_of_pos (by simp [hab]), List.getLast?_cons, hab]
      cases (ms.filter fun m => Text.lower m.1.text = Text.lower b.text).getLast? <;> simp
    · rw [List.filter_cons_of_neg (by simpa using Ne.symm hab), beq_false_of_ne hab, lookup_filter_of_nodup h]
      congr 1
      cases kept.lookup a <;> simp [Option.filter, hab]

/-- Whether a value was set at all. -/
def isSet : Setting → Bool
  | .null => false
  | _ => true

/-- Names without capitals are merged first, so that the others override them. -/
private theorem getLast?_small_append_capital (members : Members) (a : String) :
    ((members.filter (fun m => Text.lower m.1.text = m.1.text) ++
      members.filter fun m => !decide (Text.lower m.1.text = m.1.text)).filter fun m =>
        Text.lower m.1.text = a).getLast? = member? members a := by
  unfold member?
  dsimp only
  have hown (keep keep' : RawText × Setting → Bool) (h : ∀ m, Text.lower m.1.text = a → keep m = keep' m) :
      (members.filter keep).filter (fun m => Text.lower m.1.text = a) =
        (members.filter fun m => Text.lower m.1.text = a).filter keep' := by
    rw [List.filter_filter, List.filter_filter]
    refine List.filter_congr fun m _ => ?_
    by_cases hm : Text.lower m.1.text = a
    · simp [hm, h m hm]
    · simp [hm]
  have hcapital := hown (fun m => !decide (Text.lower m.1.text = m.1.text)) (fun m => m.1.text ≠ a)
    fun m hm => by simp [hm, eq_comm]
  have hsmall := hown (fun m => Text.lower m.1.text = m.1.text) (fun m => m.1.text = a)
    fun m hm => by simp [hm, eq_comm]
  rw [List.filter_append, hcapital, hsmall, List.getLast?_append]
  generalize (members.filter fun m => Text.lower m.1.text = a) = own
  cases hlast : (own.filter fun m => m.1.text ≠ a).getLast? with
  | some m => rfl
  | none =>
    -- no member has a capital letter
    have hnone := List.getLast?_eq_none_iff.1 hlast
    have hall : own.filter (fun m => m.1.text = a) = own := by
      rw [List.filter_eq_self]
      intro m hm
      simpa using List.filter_eq_nil_iff.1 hnone m hm
    rw [hall]

theorem lookup_lowered (members : Members) (a : String) :
    (lowered members).lookup a = ((member? members a).map fun m => m.2.lowered).filter isSet := by
  have hunfold : lowered members =
      ((members.filter (fun m => Text.lower m.1.text = m.1.text) ++
        members.filter fun m => !decide (Text.lower m.1.text = m.1.text)).foldl (fun (kept : Settings) m =>
          (Text.lower m.1.text, m.2.lowered) :: kept.filter fun e => e.1 ≠ Text.lower m.1.text) []).filter
        fun e => isSet e.2 := by
    unfold lowered
    rw [List.partition_eq_filter_filter]
    congr 1
  obtain ⟨hnodup, hlookup⟩ := merged_step (members.filter (fun m => Text.lower m.1.text = m.1.text) ++
    members.filter fun m => !decide (Text.lower m.1.text = m.1.text)) [] List.nodup_nil
  rw [hunfold, lookup_filter_of_nodup hnodup, hlookup, getLast?_small_append_capital, List.lookup_nil, Option.or_none]

/-! ### The parameters one by one -/

/-- The kind of each parameter. -/
def Key.kind : Key → Command.FlagKind
  | points => .int
  | epsilon => .float
  | depth => .int
  | timeout => .duration
  | progressEvery => .int
  | skipMeet => .switch
  | strict => .switch
  | precision => .text
  | diagnostics => .text
  | table => .text
  | metricsFile => .text
  | logLevel => .text
  | logFile => .text

/-- What a value that was set is for a key. -/
def Key.convert (k : Key) (v : Setting) : Setting.Conversion k.kind.Value := k.kind.convert k.name v

/-- The parameter of a key. -/
def get (c : Config) : (k : Key) → k.kind.Value
  | .points => c.points
  | .epsilon => c.epsilon
  | .depth => c.depth
  | .precision => c.precision
  | .diagnostics => c.diagnostics
  | .table => c.table
  | .metricsFile => c.metricsFile
  | .timeout => c.timeout
  | .progressEvery => c.progressEvery
  | .skipMeet => c.skipMeet
  | .strict => c.strict
  | .logLevel => c.logLevel
  | .logFile => c.logFile

/-- The parameters with the given one for each key. -/
def ofValues (value : (k : Key) → k.kind.Value) : Config where
  points := value .points
  epsilon := value .epsilon
  depth := value .depth
  precision := value .precision
  diagnostics := value .diagnostics
  table := value .table
  metricsFile := value .metricsFile
  timeout := value .timeout
  progressEvery := value .progressEvery
  skipMeet := value .skipMeet
  strict := value .strict
  logLevel := value .logLevel
  logFile := value .logFile

private theorem get_ofValues (value : (k : Key) → k.kind.Value) (k : Key) : (ofValues value).get k = value k := by
  cases k <;> rfl

private theorem ofValues_get (c : Config) : ofValues c.get = c := rfl

/-- The parameters with another one for a key. -/
def put (c : Config) (k : Key) (x : k.kind.Value) : Config :=
  ofValues fun j => if h : j = k then h ▸ x else c.get j

private theorem get_put_self (c : Config) (k : Key) (x : k.kind.Value) : (c.put k x).get k = x := by
  rw [put, get_ofValues, dif_pos rfl]

private theorem get_put_of_ne (c : Config) {j k : Key} (x : k.kind.Value) (h : j ≠ k) :
    (c.put k x).get j = c.get j := by
  rw [put, get_ofValues, dif_neg h]

private theorem set_eq (c : Config) (k : Key) (v : Setting) : c.set k v = (k.convert v).map (c.put k) := by
  cases k <;> rfl

theorem mem_all (k : Key) : k ∈ Key.all := by
  cases k <;> decide

private theorem nodup_all : Key.all.Nodup := by
  decide

/-- If all values convert, each key takes its own and no other key has a part in it. -/
theorem assemble_eq {value? : Key → Option Setting} {value : (k : Key) → k.kind.Value} {keys : List Key}
    (hnodup : keys.Nodup) {c : Config} (h : ∀ k ∈ keys, ∃ v, value? k = some v ∧ k.convert v = .ok (value k))
    (reasons : List String) :
    assemble value? keys (c, reasons) = (ofValues fun k => if k ∈ keys then value k else c.get k, reasons) := by
  induction keys generalizing c with
  | nil => simp [assemble, ofValues_get]
  | cons k keys ih =>
    obtain ⟨hk, hnodup⟩ := List.nodup_cons.1 hnodup
    obtain ⟨v, hsome, hvalue⟩ := h k (by simp)
    have hset : c.set k v = .ok (c.put k (value k)) := by
      rw [set_eq, hvalue]
      rfl
    rw [assemble, hsome]
    dsimp only
    rw [hset]
    dsimp only
    rw [ih hnodup fun j hj => h j (by simp [hj])]
    congr 2
    funext j
    by_cases hj : j = k
    · subst hj
      simp [hk, get_put_self]
    · simp [hj, get_put_of_ne c (value k) hj]

/-! ### Names -/

/-- The name of a key's flag: that of the key with dashes. -/
def Key.flag (k : Key) : String := String.ofList (k.name.toList.map fun c => if c = '_' then '-' else c)

/-- The name of a key's variable: that of the key in capitals behind the name of the program. -/
def Key.envName (k : Key) : String := "PHASEGATE_" ++ String.ofList (k.name.toList.map Char.toUpper)

/-- The lists of flags, variables and defaults know a key by its names. -/
structure Key.Named (k : Key) : Prop where
  flag : ∃ f, (flags.find? fun f => settingName f.name = k.name) = some f ∧ f.name = k.flag ∧ f.kind = k.kind
  envName : variableName k.name = k.envName
  default : ∃ v, defaults.lookup k.name = some v ∧ v.Says k.kind (default.get k)

private theorem exists_flag (k : Key) :
    ∃ f, (flags.find? fun f => settingName f.name = k.name) = some f ∧ f.name = k.flag ∧ f.kind = k.kind := by
  have hfind : (flags.find? fun f => settingName f.name = k.name).map (fun f => (f.name, f.kind)) =
      some (k.flag, k.kind) := by
    cases k <;> decide +kernel
  obtain ⟨f, hf, hnames⟩ := Option.map_eq_some_iff.1 hfind
  exact ⟨f, hf, (Prod.mk.inj hnames).1, (Prod.mk.inj hnames).2⟩

private theorem exists_default (k : Key) : ∃ v, defaults.lookup k.name = some v ∧ v.Says k.kind (default.get k) := by
  cases k
  case points => exact ⟨_, rfl, show Decimal.Fits64 256 by decide, Or.inl rfl⟩
  case depth => exact ⟨_, rfl, show Decimal.Fits64 20 by decide, Or.inl rfl⟩
  case progressEvery => exact ⟨_, rfl, show Decimal.Fits64 1048576 by decide, Or.inl rfl⟩
  case timeout => exact ⟨_, rfl, by decide, Or.inl rfl⟩
  case epsilon => exact ⟨_, rfl, Or.inl rfl⟩
  case skipMeet => exact ⟨_, rfl, Or.inl rfl⟩
  case strict => exact ⟨_, rfl, Or.inl rfl⟩
  all_goals exact ⟨_, rfl, rfl⟩

theorem Key.named (k : Key) : k.Named where
  flag := exists_flag k
  envName := by cases k <;> decide +kernel
  default := exists_default k

/-! ### The sources -/

/-- What the parameters are loaded from. -/
structure Sources where
  /-- the flags given, in order -/
  flags : List (String × Setting)
  /-- the environment of the process -/
  env : List (String × String)
  /-- the variables of the file `.env`, later ones in front -/
  dotenv : List (String × String)
  /-- the members of the file of settings -/
  members : Members

namespace Sources

variable (s : Sources) (k : Key)

/-- The value of a key's flag. -/
def flag? : Option Setting := s.flags.reverse.lookup k.flag

/-- The value of a key's variable. One that the environment has hides the one of the file. -/
def environment? : Option String :=
  ((s.env.filter withoutZero).lookup k.envName).or
    ((s.dotenv.lookup k.envName).filter fun v => withoutZero (k.envName, v))

/-- The value of a key in the file of settings. -/
def setting? : Option Setting := ((member? s.members k.name).map fun m => m.2.lowered).filter isSet

/-- What is set for a key by the first source that sets it. -/
def first? : Option Setting :=
  (s.flag? k).or ((((s.environment? k).filter (· ≠ "")).map fun v => .text v).or (s.setting? k))

/-- The value that a key takes from its sources. -/
def value : k.kind.Value := ((s.first? k).bind fun v => (k.convert v).toOption).getD (default.get k)

/-- The parameters that the sources give key by key. -/
def config : Config := ofValues s.value

/-- The entries under the names of a key. -/
def only : Sources where
  flags := s.flags.filter fun f => f.1 = k.flag
  env := s.env.filter fun e => e.1 = k.envName
  dotenv := s.dotenv.filter fun e => e.1 = k.envName
  members := s.members.filter fun m => Text.lower m.1.text = k.name

/-- Every value that counts can be converted. -/
def WellFormed : Prop := ∀ k v, s.first? k = some v → ∃ x, k.convert v = .ok x

/-- The files can be read, and these are the sources. -/
structure ReadFrom (fs : Files) (env : List (String × String)) (arguments : Command.Arguments) (path : RawText) :
    Prop where
  flags : s.flags = arguments.set
  env : s.env = env
  dotenv : (∃ e, fs.read dotenvPath = .error e ∧ e.fault = .notFound ∧ s.dotenv = []) ∨
    ∃ text, fs.read dotenvPath = .ok text ∧ Dotenv.read text = .ok s.dotenv
  members : path.isEmpty = true ∧ s.members = [] ∨ path.isEmpty = false ∧ ∃ read text,
    reader? (String.ofList ((Path.extension path).text.toList.drop 1)) = some read ∧ fs.read path = .ok text ∧
      read text = .ok s.members

variable {s k} {fs : Files} {env : List (String × String)} {arguments : Command.Arguments} {path : RawText}

private theorem convert_of_first? (h : s.WellFormed) {v : Setting} (hfirst : s.first? k = some v) :
    k.convert v = .ok (s.value k) := by
  obtain ⟨x, hx⟩ := h k v hfirst
  rw [value, hfirst, Option.bind_some, hx]
  rfl

private theorem value_of_first?_eq_none (hfirst : s.first? k = none) : s.value k = default.get k := by
  rw [value, hfirst]
  rfl

/-- Every key takes a value: the one of its sources, or the default. -/
private theorem exists_convert (h : s.WellFormed) (k : Key) :
    ∃ v, (s.first? k).or (defaults.lookup k.name) = some v ∧ k.convert v = .ok (s.value k) := by
  cases hfirst : s.first? k with
  | some v => exact ⟨v, rfl, convert_of_first? h hfirst⟩
  | none =>
    obtain ⟨v, hv, hsays⟩ := k.named.default
    refine ⟨v, hv, ?_⟩
    rw [value_of_first?_eq_none hfirst]
    exact hsays.convert_eq k.name

/-! ### Loading -/

private theorem ReadFrom.environment_eq (h : s.ReadFrom fs env arguments path) :
    ∃ merged, environment fs env = .ok merged ∧ ∀ k : Key, merged.lookup k.envName = s.environment? k := by
  unfold environment environment?
  rw [← h.env]
  rcases h.dotenv with ⟨e, hread, hfault, hnone⟩ | ⟨text, hread, hdotenv⟩
  · rw [hread, hnone]
    exact ⟨_, if_pos hfault, fun k => by simp [isVariable_eq]⟩
  · rw [hread]
    dsimp only
    rw [hdotenv]
    exact ⟨_, rfl, fun k => lookup_environment s.env s.dotenv k.envName⟩

private theorem ReadFrom.settings_eq (h : s.ReadFrom fs env arguments path) :
    ∃ settings, settingsOf fs path = .ok settings ∧ ∀ k : Key, settings.lookup k.name = s.setting? k := by
  unfold settingsOf setting?
  rcases h.members with ⟨hpath, hnone⟩ | ⟨hpath, read, text, hreader, hread, hmembers⟩
  · rw [hnone]
    exact ⟨[], if_pos hpath, fun k => rfl⟩
  · refine ⟨lowered s.members, ?_, fun k => lookup_lowered s.members k.name⟩
    rw [if_neg (by simp [hpath])]
    unfold readSettings
    simp only [hreader, hread, hmembers, Except.map]

private theorem ReadFrom.load_eq (h : s.ReadFrom fs env arguments path) (hwell : s.WellFormed) :
    load fs env arguments path = (s.config.validate.mapError .invalid).map fun _ => s.config := by
  obtain ⟨merged, henv, hvariable⟩ := h.environment_eq
  obtain ⟨settings, hsettings, hsetting⟩ := h.settings_eq
  have hsource (k : Key) : source? arguments merged settings k.name = (s.first? k).or (defaults.lookup k.name) := by
    obtain ⟨f, hf, hname, -⟩ := k.named.flag
    rw [source?, hf, k.named.envName, hvariable, hsetting, first?, Option.or_assoc, Option.or_assoc, flag?, ← hname,
      h.flags]
    rfl
  have hassembled : assemble (fun k => source? arguments merged settings k.name) Key.all (blank, []) =
      (s.config, []) := by
    simp only [hsource]
    rw [assemble_eq nodup_all fun k _ => exists_convert hwell k]
    simp only [mem_all, if_true]
    rfl
  unfold load
  rw [henv, hsettings]
  simp only [bind, Except.bind, hassembled]
  cases s.config.validate with
  | ok u => rfl
  | error e => rfl

/-! ### Other keys -/

private theorem first?_only (s : Sources) (k : Key) : (s.only k).first? k = s.first? k := by
  have hflag : (s.only k).flag? k = s.flag? k := by
    rw [flag?, flag?, only, ← List.filter_reverse, lookup_filter_name]
  have henv : ((s.env.filter fun e => e.1 = k.envName).filter withoutZero).lookup k.envName =
      (s.env.filter withoutZero).lookup k.envName := by
    rw [← lookup_filter_name (s.env.filter withoutZero), List.filter_filter, List.filter_filter]
    simp only [Bool.and_comm]
  have hvariable : (s.only k).environment? k = s.environment? k := by
    rw [environment?, environment?, only, lookup_filter_name, henv]
  have hsetting : (s.only k).setting? k = s.setting? k := by
    unfold setting? member? only
    simp only [List.filter_filter, Bool.and_self]
  rw [first?, first?, hflag, hvariable, hsetting]

/-- Entries under other names have no part in the value of a key. -/
private theorem value_congr {s s' : Sources} {k : Key} (h : s'.only k = s.only k) : s'.value k = s.value k := by
  rw [value, value, ← first?_only s', ← first?_only s, h]

end Sources

/-- No two keys have a name in common. -/
private theorem Key.names_ne {j k : Key} (h : j ≠ k) : j.flag ≠ k.flag ∧ j.envName ≠ k.envName ∧ j.name ≠ k.name := by
  have hne {f : Key → String} (hnodup : (Key.all.map f).Nodup) : f j ≠ f k :=
    fun hf => h (List.inj_on_of_nodup_map hnodup (mem_all j) (mem_all k) hf)
  exact ⟨hne (by decide +kernel), hne (by decide +kernel), hne (by decide +kernel)⟩

/-- A parameter is what a value that was set converts to, and that is what the value says. -/
def Key.Gets (k : Key) (v : Setting) (x : k.kind.Value) : Prop :=
  k.convert v = .ok x ∧ ∀ y, v.Says k.kind y → x = y

private theorem gets_of_convert {k : Key} {v : Setting} {x : k.kind.Value} (h : k.convert v = .ok x) : k.Gets v x := by
  refine ⟨h, fun y hy => ?_⟩
  have hconvert : k.convert v = .ok y := hy.convert_eq k.name
  rw [h] at hconvert
  exact Except.ok.inj hconvert

/-- The parameters are loaded key by key.

If the files can be read and the values that count can be converted, the parameters are those of `Sources.config`,
unless they fail a condition, which is then the error.  For each key these are, in this order: its flag, its variable
unless that is empty, its setting in the file, the default.  The value of a flag, a variable or a setting is what it is
if it is of the key's kind, and what it spells if it is a text.  Entries under names that are not the key's own, be they
those of other keys or of none, make no difference to it. -/
theorem load_by_precedence (s : Sources) {fs : Files} {env : List (String × String)} {arguments : Command.Arguments}
    {path : RawText} (h : s.ReadFrom fs env arguments path) (hwell : s.WellFormed) :
    load fs env arguments path = (s.config.validate.mapError .invalid).map (fun _ => s.config) ∧
      ((∃ c, load fs env arguments path = .ok c) ↔ s.config.validate = .ok ()) ∧
      ∀ k : Key,
        k.Named ∧
        (∀ v, s.flag? k = some v → k.Gets v (s.config.get k)) ∧
        (s.flag? k = none →
          (∀ v, s.environment? k = some v → v ≠ "" → k.Gets (.text v) (s.config.get k)) ∧
          ((∀ v, s.environment? k = some v → v = "") →
            (∀ v, s.setting? k = some v → k.Gets v (s.config.get k)) ∧
            (s.setting? k = none → s.config.get k = default.get k))) ∧
        (∀ s' : Sources, s'.only k = s.only k → s'.config.get k = s.config.get k) ∧
        ∀ j, j ≠ k → j.flag ≠ k.flag ∧ j.envName ≠ k.envName ∧ j.name ≠ k.name := by
  have hload := h.load_eq hwell
  refine ⟨hload, ?_, fun k => ?_⟩
  · rw [hload]
    cases s.config.validate with
    | ok u => exact ⟨fun _ => rfl, fun _ => ⟨_, rfl⟩⟩
    | error e =>
      constructor
      · rintro ⟨c, ⟨⟩⟩
      · rintro ⟨⟩
  · have hget : s.config.get k = s.value k := get_ofValues s.value k
    have hgets {v : Setting} (hfirst : s.first? k = some v) : k.Gets v (s.value k) :=
      gets_of_convert (Sources.convert_of_first? hwell hfirst)
    -- an empty variable counts as none
    have hunset (hempty : ∀ v, s.environment? k = some v → v = "") : (s.environment? k).filter (· ≠ "") = none := by
      rw [Option.filter_eq_none_iff]
      intro v hv
      simp [hempty v hv]
    rw [hget]
    refine ⟨k.named, fun v hv => hgets ?_, fun hflag => ⟨fun v hv hne => hgets ?_, fun hempty => ⟨fun v hv => hgets ?_,
      fun hsetting => Sources.value_of_first?_eq_none ?_⟩⟩, fun s' hs' => ?_, fun j hj => Key.names_ne hj⟩
    · rw [Sources.first?, hv]
      rfl
    · rw [Sources.first?, hflag, hv]
      simp [Option.filter, hne]
    · rw [Sources.first?, hflag, hunset hempty, hv]
      rfl
    · rw [Sources.first?, hflag, hunset hempty, hsetting]
      rfl
    · rw [Sources.config, get_ofValues]
      exact Sources.value_congr hs'

private theorem eq_ok_getD {ε : Type} {α : Type} {x : Except ε (List α)} (h : x.isOk = true) :
    x = .ok (x.toOption.getD []) := by
  cases x with
  | ok a => rfl
  | error e => cases h

/-- The depth is given by a flag, a variable of `.env` and the file, and is that of the flag.  The second pass is left
out by a flag.  The variable for strictness is empty in the environment, so the one of `.env` does not count.  The time
allowed is spelled in minutes and seconds.  The file has the number of slots in capitals. -/
theorem load_by_precedence_all_sources :
    let env := [("PHASEGATE_STRICT", ""), ("PHASEGATE_PRECISION", "double"), ("PHASEGATE_TIMEOUT", "1m30s")]
    let dotenv := "PHASEGATE_STRICT=true\nPHASEGATE_DEPTH=9\n"
    let settings := "POINTS = 64\ndepth = 3\ncolour = 7\n"
    let fs : Files := ⟨[([".env"], .file dotenv), (["c.toml"], .file settings)], []⟩
    let arguments : Command.Arguments := ⟨[("depth", .int 4), ("skip-mitm", .bool true)], []⟩
    ∃ c, load fs env arguments "c.toml" = .ok c ∧ c.depth = 4 ∧ c.skipMeet = true ∧ c.strict = false ∧
      c.precision = "double" ∧ c.timeout = ⟨90000000000⟩ ∧ c.points = 64 ∧ c.table = "phase_table.json" := by
  intro env dotenv settings fs arguments
  let s : Sources := ⟨arguments.set, env, (Dotenv.read dotenv).toOption.getD [], (readToml settings).toOption.getD []⟩
  have hread : s.ReadFrom fs env arguments "c.toml" := by
    have hext : String.ofList ((Path.extension "c.toml").text.toList.drop 1) = "toml" := by decide +kernel
    refine ⟨rfl, rfl, Or.inr ⟨dotenv, ?_, eq_ok_getD ?_⟩, Or.inr ⟨?_, readToml, settings, by rw [hext]; rfl, ?_,
      eq_ok_getD ?_⟩⟩
    all_goals decide +kernel
  obtain ⟨hconverts, hvalid, hvalues⟩ : (Key.all.all fun k => (s.first? k).all fun v => (k.convert v).isOk) = true ∧
      s.config.validate.isOk = true ∧ s.config.depth = 4 ∧ s.config.skipMeet = true ∧ s.config.strict = false ∧
        s.config.precision = "double" ∧ s.config.timeout = ⟨90000000000⟩ ∧ s.config.points = 64 ∧
        s.config.table = "phase_table.json" := by
    decide +kernel
  have hwell : s.WellFormed := by
    intro k v hv
    have hk := List.all_eq_true.1 hconverts k (mem_all k)
    rw [hv, Option.all_some] at hk
    cases hx : k.convert v with
    | ok x => exact ⟨x, rfl⟩
    | error e =>
      rw [hx] at hk
      cases hk
  obtain ⟨hload, -⟩ := load_by_precedence s hread hwell
  refine ⟨s.config, ?_, hvalues⟩
  rw [hload]
  cases hvalidate : s.config.validate with
  | ok u => rfl
  | error e =>
    rw [hvalidate] at hvalid
    cases hvalid

end Config

end CliffordT
