import EvmDb.Core.Hex

/-!
The configuration: `src/core/config.c`.

A file is read line by line to a buffer. A line sets a field if it has the form of a setting with
the name of the field; any other line is passed over, and the last setting of a field counts.
-/

namespace EvmDb.ConfigFile

open EvmDb.Types EvmDb.Digits EvmDb.Hex

/-! ### Loading -/

/-- `evmdb_config_t`. An `int` is a number. -/
structure Config where
  redisHost : Bytes
  redisPort : ℤ
  redisPassword : Option Bytes
  redisDb : ℤ
  rpcHost : Bytes
  rpcPort : ℤ
  chainId : UInt64
  gasLimit : UInt64
  baseFee : UInt64
  logLevel : ℤ
  deriving DecidableEq

/-- `evmdb_config_defaults`. -/
def configDefaults : Config where
  redisHost := ascii "127.0.0.1"
  redisPort := 6379
  redisPassword := none
  redisDb := 0
  rpcHost := ascii "0.0.0.0"
  rpcPort := 8545
  chainId := 100100
  gasLimit := 30000000
  baseFee := 1000000000
  logLevel := 2

/-- What `fgets` reads to a buffer of a size, time after time: lines with their ends, and pieces
that fill the buffer. The line that is being read comes first. -/
def fgetsAll (size : ℕ) : Bytes → Bytes → List Bytes
  | line, [] => if line = [] then [] else [line]
  | line, c :: t =>
    if c = 10 ∨ line.length + 2 = size then (line ++ [c]) :: fgetsAll size [] t
    else fgetsAll size (line ++ [c]) t

/-- `sscanf` with `" %63[^= ] = %255[^\n]"`, if it assigns both. -/
def scanSetting (line : Bytes) : Option (Bytes × Bytes) :=
  let s := line.dropWhile isSpace
  let key := (s.takeWhile fun c => c ≠ 61 ∧ c ≠ 32).take 63
  match (s.drop key.length).dropWhile isSpace with
  | 61 :: s =>
    let value := ((s.dropWhile isSpace).takeWhile (· ≠ 10)).take 255
    if key = [] ∨ value = [] then none else some (key, value)
  | _ => none

/-- A value in quotes, without them. -/
def unquote (value : Bytes) : Bytes :=
  if value.length ≥ 2 ∧ value.head? = some 34 ∧ value.getLast? = some 34 then value.dropLast.tail
  else value

/-- `atoi`: the low half of a `long`. -/
def atoi (s : Bytes) : ℤ := Int.bmod (atol s) (2 ^ 32)

/-- `atoll`, as a `uint64_t`. -/
def atollUnsigned (s : Bytes) : UInt64 := UInt64.ofInt (atol s)

/-- What a setting does; its strings are copied. -/
def setField (cfg : Config) (key value : Bytes) : Config :=
  if key = ascii "redis_host" then { cfg with redisHost := value }
  else if key = ascii "redis_port" then { cfg with redisPort := atoi value }
  else if key = ascii "redis_password" then { cfg with redisPassword := some value }
  else if key = ascii "redis_db" then { cfg with redisDb := atoi value }
  else if key = ascii "rpc_host" then { cfg with rpcHost := value }
  else if key = ascii "rpc_port" then { cfg with rpcPort := atoi value }
  else if key = ascii "chain_id" then { cfg with chainId := atollUnsigned value }
  else if key = ascii "gas_limit" then { cfg with gasLimit := atollUnsigned value }
  else if key = ascii "base_fee" then { cfg with baseFee := atollUnsigned value }
  else if key = ascii "log_level" then { cfg with logLevel := atoi value }
  else cfg

/-- One line of a file. -/
def loadLine (cfg : Config) (line : Bytes) : Config :=
  match cstr line with
  | 35 :: _ | 10 :: _ | 91 :: _ => cfg
  | line =>
    match scanSetting line with
    | none => cfg
    | some (key, value) => setField cfg key (unquote value)

/-- `evmdb_config_load`, with the content of the file, if it can be opened. -/
def configLoad (cfg : Config) : Option Bytes → ℤ × Config
  | none => (-1, cfg)
  | some file => (0, (fgetsAll 512 [] file).foldl loadLine cfg)

/-! ### Lines -/

/-- A line that sets a field: the name, an equals sign and a value, and blanks. -/
structure Setting where
  indent : Bytes
  key : Bytes
  before : Bytes
  after : Bytes
  value : Bytes
  blank : ∀ c ∈ indent ++ after, c = 32 ∨ c = 9
  spaces : ∀ c ∈ before, c = 32
  name : key ≠ [] ∧ key.length ≤ 63
  nameChars : ∀ c ∈ key, isSpace c = false ∧ c ≠ 61 ∧ c ≠ 0
  noRemark : (indent ++ key).head? ≠ some 35 ∧ (indent ++ key).head? ≠ some 91
  filled : value ≠ [] ∧ value.length ≤ 255
  valueChars : ∀ c ∈ value, c ≠ 10 ∧ c ≠ 0
  first : ∀ c ∈ value.head?, isSpace c = false
  short : indent.length + key.length + before.length + after.length + value.length ≤ 509

/-- A line that sets nothing: a comment, the head of a section, or an empty line. -/
structure Remark where
  text : Bytes
  begins : text = [] ∨ text.head? = some 35 ∨ text.head? = some 91
  noEnd : 10 ∉ text
  short : text.length ≤ 510

inductive Line
  | setting (s : Setting)
  | remark (r : Remark)

/-- The characters of a line, up to its end. -/
def Line.chars : Line → Bytes
  | .setting s => s.indent ++ (s.key ++ (s.before ++ 61 :: (s.after ++ s.value)))
  | .remark r => r.text

/-- A file with some lines. -/
def written (lines : List Line) : Bytes := lines.flatMap fun l => l.chars ++ [10]

/-- What is set by a line. -/
def Line.sets : Line → Option (Bytes × Bytes)
  | .setting s => some (s.key, unquote s.value)
  | .remark _ => none

/-- A setting has no end of a line or of a text. -/
lemma Setting.chars_ne (s : Setting) : ∀ c ∈ (Line.setting s).chars, c ≠ 10 ∧ c ≠ 0 := by
  have hblank : ∀ c ∈ s.indent ++ s.after, c ≠ 10 ∧ c ≠ 0 := fun c hc => by
    rcases s.blank c hc with rfl | rfl <;> decide
  have hkey : ∀ c ∈ s.key, c ≠ 10 ∧ c ≠ 0 := fun c hc => by
    obtain ⟨hspace, -, hnul⟩ := s.nameChars c hc
    refine ⟨fun h => ?_, hnul⟩
    rw [h] at hspace
    cases hspace
  have hbefore : ∀ c ∈ s.before, c ≠ 10 ∧ c ≠ 0 := fun c hc => by
    rw [s.spaces c hc]
    decide
  intro c h
  simp only [Line.chars, List.mem_append, List.mem_cons] at h
  rcases h with h | h | h | rfl | h | h
  · exact hblank c (List.mem_append_left _ h)
  · exact hkey c h
  · exact hbefore c h
  · decide
  · exact hblank c (List.mem_append_right _ h)
  · exact s.valueChars c h

lemma Line.noEnd (l : Line) : 10 ∉ l.chars := by
  cases l with
  | setting s => exact fun h => (s.chars_ne 10 h).1 rfl
  | remark r => exact r.noEnd

lemma Line.short (l : Line) : l.chars.length ≤ 510 := by
  cases l with
  | setting s =>
    have hshort := s.short
    simp only [Line.chars, List.length_append, List.length_cons]
    omega
  | remark r => exact r.short

/-! ### Reading lines -/

/-- A line that fits the buffer is read as a whole. -/
lemma fgetsAll_line {body : Bytes} (hend : 10 ∉ body) {line : Bytes} {size : ℕ}
    (hsize : line.length + body.length + 2 ≤ size) (t : Bytes) :
    fgetsAll size line (body ++ 10 :: t) = (line ++ body ++ [10]) :: fgetsAll size [] t := by
  induction body generalizing line with
  | nil => simp [fgetsAll]
  | cons c body ih =>
    obtain ⟨hc, hrest⟩ := not_or.mp (List.mem_cons.not.mp hend)
    rw [List.length_cons] at hsize
    rw [List.cons_append, fgetsAll, if_neg (by rw [not_or]; exact ⟨Ne.symm hc, by omega⟩),
      ih hrest (by rw [List.length_append, List.length_singleton]; omega), List.append_assoc line]
    rfl

/-- **A file is read line by line.** -/
lemma fgetsAll_written (lines : List Line) :
    fgetsAll 512 [] (written lines) = lines.map fun l => l.chars ++ [10] := by
  induction lines with
  | nil => rfl
  | cons l lines ih =>
    have hshort := l.short
    unfold written at ih ⊢
    rw [List.flatMap_cons, List.append_assoc, List.singleton_append,
      fgetsAll_line l.noEnd (by rw [List.length_nil]; omega), ih]
    rfl

/-- Blanks are passed over, up to a text. -/
lemma dropWhile_blanks {blanks : Bytes} (hblanks : ∀ c ∈ blanks, isSpace c = true) {s : Bytes}
    (hs : s ≠ []) (hfirst : ∀ c ∈ s.head?, isSpace c = false) (t : Bytes) :
    (blanks ++ (s ++ t)).dropWhile isSpace = s ++ t := by
  obtain ⟨c, s, rfl⟩ := List.exists_cons_of_ne_nil hs
  have hc := hfirst c rfl
  rw [List.dropWhile_append_of_pos hblanks, List.cons_append,
    List.dropWhile_cons_of_neg (by simp [hc])]

/-- The name ends at a space or at the equals sign. -/
lemma Setting.takeWhile_key (s : Setting) (t : Bytes) :
    (s.key ++ (s.before ++ 61 :: t)).takeWhile (fun c => c ≠ 61 ∧ c ≠ 32) = s.key := by
  have hchars : ∀ c ∈ s.key, decide (c ≠ 61 ∧ c ≠ 32) = true := fun c hc => by
    obtain ⟨hspace, hequals, -⟩ := s.nameChars c hc
    refine decide_eq_true ⟨hequals, fun h => ?_⟩
    rw [h] at hspace
    cases hspace
  rw [List.takeWhile_append_of_pos hchars]
  rcases hcons : s.before with _ | ⟨c, before⟩
  · rw [List.nil_append, List.takeWhile_cons_of_neg (by decide), List.append_nil]
  · have hc := s.spaces c (hcons ▸ List.mem_cons_self)
    rw [List.cons_append, List.takeWhile_cons_of_neg (by simp [hc]), List.append_nil]

/-- The value ends with the line. -/
lemma Setting.takeWhile_value (s : Setting) : (s.value ++ [10]).takeWhile (· ≠ 10) = s.value := by
  have hchars : ∀ c ∈ s.value, decide (c ≠ 10) = true := fun c hc =>
    decide_eq_true (s.valueChars c hc).1
  rw [List.takeWhile_append_of_pos hchars, List.takeWhile_cons_of_neg (by decide), List.append_nil]

/-- A setting is found. -/
lemma scanSetting_setting (s : Setting) :
    scanSetting ((Line.setting s).chars ++ [10]) = some (s.key, s.value) := by
  obtain ⟨hkey, hkeyLength⟩ := s.name
  obtain ⟨hvalue, hvalueLength⟩ := s.filled
  have hblank : ∀ c ∈ s.indent ++ s.after, isSpace c = true := fun c hc => by
    rcases s.blank c hc with rfl | rfl <;> rfl
  have hspaces : ∀ c ∈ s.before, isSpace c = true := fun c hc => by
    rw [s.spaces c hc]
    rfl
  have hkeyHead : ∀ c ∈ s.key.head?, isSpace c = false := fun c hc =>
    (s.nameChars c (List.mem_of_head? hc)).1
  have hsplit : (Line.setting s).chars ++ [10] =
      s.indent ++ (s.key ++ (s.before ++ 61 :: (s.after ++ (s.value ++ [10])))) := by
    simp [Line.chars]
  have hindent := dropWhile_blanks (fun c hc => hblank c (List.mem_append_left _ hc)) hkey hkeyHead
    (s.before ++ 61 :: (s.after ++ (s.value ++ [10])))
  have hequals : (s.before ++ 61 :: (s.after ++ (s.value ++ [10]))).dropWhile isSpace =
      61 :: (s.after ++ (s.value ++ [10])) :=
    dropWhile_blanks hspaces (List.cons_ne_nil 61 []) (by rintro _ ⟨⟩; rfl) _
  have hafter := dropWhile_blanks (fun c hc => hblank c (List.mem_append_right _ hc)) hvalue s.first
    [10]
  unfold scanSetting
  rw [hsplit, hindent]
  dsimp only
  rw [s.takeWhile_key, List.take_of_length_le hkeyLength, List.drop_left, hequals]
  show (if s.key = [] ∨ (((s.after ++ (s.value ++ [10])).dropWhile isSpace).takeWhile (· ≠ 10)).take
    255 = [] then none else some (s.key, _)) = some (s.key, s.value)
  rw [hafter, s.takeWhile_value, List.take_of_length_le hvalueLength,
    if_neg (not_or.mpr ⟨hkey, hvalue⟩)]

/-- A setting begins neither a comment nor the head of a section. -/
lemma Setting.chars_cons (s : Setting) :
    ∃ c t, (Line.setting s).chars = c :: t ∧ c ≠ 35 ∧ c ≠ 10 ∧ c ≠ 91 := by
  obtain ⟨hkey, -⟩ := s.name
  obtain ⟨hhash, hhead⟩ := s.noRemark
  obtain ⟨c, t, hcons⟩ := List.exists_cons_of_ne_nil
    (List.append_ne_nil_of_right_ne_nil s.indent hkey)
  have hchars : (Line.setting s).chars = c :: (t ++ (s.before ++ 61 :: (s.after ++ s.value))) := by
    rw [← List.cons_append, ← hcons, List.append_assoc]
    rfl
  rw [hcons] at hhash hhead
  refine ⟨c, _, hchars, fun h => hhash (congrArg some h), ?_, fun h => hhead (congrArg some h)⟩
  exact (s.chars_ne c (hchars ▸ List.mem_cons_self)).1

lemma loadLine_of_scanSetting (cfg : Config) {line : Bytes} {kv : Bytes × Bytes} {c : UInt8}
    {t : Bytes} (hcstr : cstr line = c :: t) (hc : c ≠ 35 ∧ c ≠ 10 ∧ c ≠ 91)
    (hscan : scanSetting (c :: t) = some kv) :
    loadLine cfg line = setField cfg kv.1 (unquote kv.2) := by
  obtain ⟨hhash, hend, hhead⟩ := hc
  unfold loadLine
  rw [hcstr]
  split
  case h_1 h => exact absurd (List.cons.inj h).1 hhash
  case h_2 h => exact absurd (List.cons.inj h).1 hend
  case h_3 h => exact absurd (List.cons.inj h).1 hhead
  case h_4 => rw [hscan]

/-- **What a line does**: a setting sets its field, and another line does nothing. -/
lemma loadLine_line (cfg : Config) (l : Line) :
    loadLine cfg (l.chars ++ [10]) = l.sets.elim cfg fun kv => setField cfg kv.1 kv.2 := by
  cases l with
  | setting s =>
    obtain ⟨c, t, hcons, hc⟩ := s.chars_cons
    have hnul : 0 ∉ (Line.setting s).chars ++ [10] := by
      intro h
      rcases List.mem_append.mp h with h | h
      · exact (s.chars_ne 0 h).2 rfl
      · cases List.mem_singleton.mp h
    have hscan := scanSetting_setting s
    rw [hcons, List.cons_append] at hscan
    exact loadLine_of_scanSetting cfg (by rw [cstr_eq_self hnul, hcons]; rfl) hc hscan
  | remark r =>
    show loadLine cfg (r.text ++ [10]) = cfg
    obtain htext | htext | htext := r.begins
    · rw [htext]
      rfl
    · obtain ⟨t, htext⟩ := List.head?_eq_some_iff.mp htext
      rw [htext]
      rfl
    · obtain ⟨t, htext⟩ := List.head?_eq_some_iff.mp htext
      rw [htext]
      rfl

/-! ### What is set -/

/-- The fields that a file can set. -/
inductive Field
  | redisHost
  | redisPort
  | redisPassword
  | redisDb
  | rpcHost
  | rpcPort
  | chainId
  | gasLimit
  | baseFee
  | logLevel
  deriving DecidableEq

def Field.name : Field → Bytes
  | redisHost => ascii "redis_host"
  | redisPort => ascii "redis_port"
  | redisPassword => ascii "redis_password"
  | redisDb => ascii "redis_db"
  | rpcHost => ascii "rpc_host"
  | rpcPort => ascii "rpc_port"
  | chainId => ascii "chain_id"
  | gasLimit => ascii "gas_limit"
  | baseFee => ascii "base_fee"
  | logLevel => ascii "log_level"

/-- A configuration with some fields set. -/
def configOf (cfg : Config) (text : Field → Option Bytes) : Config where
  redisHost := (text .redisHost).getD cfg.redisHost
  redisPort := ((text .redisPort).map atoi).getD cfg.redisPort
  redisPassword := (text .redisPassword).or cfg.redisPassword
  redisDb := ((text .redisDb).map atoi).getD cfg.redisDb
  rpcHost := (text .rpcHost).getD cfg.rpcHost
  rpcPort := ((text .rpcPort).map atoi).getD cfg.rpcPort
  chainId := ((text .chainId).map atollUnsigned).getD cfg.chainId
  gasLimit := ((text .gasLimit).map atollUnsigned).getD cfg.gasLimit
  baseFee := ((text .baseFee).map atollUnsigned).getD cfg.baseFee
  logLevel := ((text .logLevel).map atoi).getD cfg.logLevel

/-- The last of some settings that is about a field. -/
def lastSetting (settings : List (Bytes × Bytes)) (f : Field) : Option Bytes :=
  settings.reverse.findSome? fun kv => if kv.1 = f.name then some kv.2 else none

lemma name_injective {f g : Field} (h : f.name = g.name) : f = g := by
  revert h
  cases f <;> cases g <;> decide

lemma lastSetting_append (settings : List (Bytes × Bytes)) (kv : Bytes × Bytes) (f : Field) :
    lastSetting (settings ++ [kv]) f =
      if kv.1 = f.name then some kv.2 else lastSetting settings f := by
  unfold lastSetting
  rw [List.reverse_append, List.reverse_singleton, List.singleton_append, List.findSome?_cons]
  split_ifs <;> rfl

/-- Setting one more field. -/
lemma setField_name (cfg : Config) (text : Field → Option Bytes) (f : Field) (value : Bytes) :
    setField (configOf cfg text) f.name value =
      configOf cfg (Function.update text f (some value)) := by
  cases f <;> rfl

/-- A name of no field sets nothing. -/
lemma setField_other (cfg : Config) {key : Bytes} (h : ∀ f : Field, key ≠ f.name) (value : Bytes) :
    setField cfg key value = cfg := by
  refine (if_neg (h .redisHost)).trans <| (if_neg (h .redisPort)).trans <|
    (if_neg (h .redisPassword)).trans <| (if_neg (h .redisDb)).trans <|
    (if_neg (h .rpcHost)).trans <| (if_neg (h .rpcPort)).trans <| (if_neg (h .chainId)).trans <|
    (if_neg (h .gasLimit)).trans <| (if_neg (h .baseFee)).trans <| if_neg (h .logLevel)

/-- One more setting. -/
lemma setField_lastSetting (cfg : Config) (settings : List (Bytes × Bytes)) (kv : Bytes × Bytes) :
    setField (configOf cfg (lastSetting settings)) kv.1 kv.2 =
      configOf cfg (lastSetting (settings ++ [kv])) := by
  by_cases hname : ∃ f : Field, kv.1 = f.name
  · obtain ⟨f, hf⟩ := hname
    rw [hf, setField_name]
    congr 1
    funext g
    rw [lastSetting_append, hf]
    by_cases hg : g = f
    · rw [hg, Function.update_self, if_pos rfl]
    · rw [Function.update_of_ne hg, if_neg fun h => hg (name_injective h).symm]
  · have hother : ∀ f : Field, kv.1 ≠ f.name := fun f hf => hname ⟨f, hf⟩
    rw [setField_other _ hother]
    congr 1
    funext g
    rw [lastSetting_append, if_neg (hother g)]

/-- **The last setting of a field counts**, and nothing else of a file does. -/
theorem configLoad_written (cfg : Config) (lines : List Line) :
    configLoad cfg (some (written lines)) =
      (0, configOf cfg (lastSetting (lines.filterMap Line.sets))) := by
  have hlines : (lines.map fun l => l.chars ++ [10]).foldl loadLine cfg =
      configOf cfg (lastSetting (lines.filterMap Line.sets)) := by
    induction lines using List.reverseRecOn with
    | nil => rfl
    | append_singleton lines l ih =>
      rw [List.map_append, List.foldl_append, ih, List.filterMap_append]
      show loadLine _ (l.chars ++ [10]) = _
      rw [loadLine_line]
      rcases hsets : l.sets with _ | kv
      · rw [List.filterMap_cons_none hsets, List.filterMap_nil, List.append_nil]
        rfl
      · rw [List.filterMap_cons_some hsets, List.filterMap_nil]
        exact setField_lastSetting cfg _ kv
  show (0, (fgetsAll 512 [] (written lines)).foldl loadLine cfg) = _
  rw [fgetsAll_written, hlines]

/-! ### Plain settings -/

/-- A text in the place of a value. -/
structure ValueFits (value : Bytes) : Prop where
  filled : value ≠ [] ∧ value.length ≤ 255
  chars : ∀ c ∈ value, c ≠ 10 ∧ c ≠ 0
  first : ∀ c ∈ value.head?, isSpace c = false

instance (value : Bytes) : Decidable (ValueFits value) :=
  decidable_of_iff ((value ≠ [] ∧ value.length ≤ 255) ∧
      (value.all fun c => c ≠ 10 ∧ c ≠ 0) = true ∧ (value.head?.all fun c => !isSpace c) = true)
    ⟨fun h => ⟨h.1, by simpa using h.2.1, by simpa [Option.all_eq_true] using h.2.2⟩,
      fun h => ⟨h.filled, by simpa using h.chars, by simpa [Option.all_eq_true] using h.first⟩⟩

/-- A name at the beginning of a line. -/
structure NameFits (key : Bytes) : Prop where
  filled : key ≠ [] ∧ key.length ≤ 63
  chars : ∀ c ∈ key, isSpace c = false ∧ c ≠ 61 ∧ c ≠ 0
  noRemark : key.head? ≠ some 35 ∧ key.head? ≠ some 91

instance (key : Bytes) : Decidable (NameFits key) :=
  decidable_of_iff ((key ≠ [] ∧ key.length ≤ 63) ∧
      (key.all fun c => isSpace c = false ∧ c ≠ 61 ∧ c ≠ 0) = true ∧
        key.head? ≠ some 35 ∧ key.head? ≠ some 91)
    ⟨fun h => ⟨h.1, by simpa using h.2.1, h.2.2⟩,
      fun h => ⟨h.filled, by simpa using h.chars, h.noRemark⟩⟩

/-- A line with a space on each side of the equals sign. -/
def assignment {key value : Bytes} (hkey : NameFits key) (hvalue : ValueFits value) : Setting where
  indent := []
  key := key
  before := [32]
  after := [32]
  value := value
  blank := by
    intro c hc
    exact .inl (List.mem_singleton.mp hc)
  spaces := fun c hc => List.mem_singleton.mp hc
  name := hkey.filled
  nameChars := hkey.chars
  noRemark := hkey.noRemark
  filled := hvalue.filled
  valueChars := hvalue.chars
  first := hvalue.first
  short := by
    have hname := hkey.filled.2
    have htext := hvalue.filled.2
    simp only [List.length_nil, List.length_singleton]
    omega

def setting (name value : String)
    (h : NameFits (ascii name) ∧ ValueFits (ascii value) := by decide) : Line :=
  .setting (assignment h.1 h.2)

def remark (text : String) (h : (ascii text = [] ∨ (ascii text).head? = some 35 ∨
    (ascii text).head? = some 91) ∧ 10 ∉ ascii text ∧ (ascii text).length ≤ 510 := by decide) :
    Line :=
  .remark ⟨ascii text, h.1, h.2.1, h.2.2⟩

/-- `config/evmdb.toml`. -/
def evmdbToml : List Line :=
  [remark "# evm-db configuration", remark "",
    remark "[redis]",
    setting "redis_host" "\"127.0.0.1\"",
    setting "redis_port" "6379",
    remark "# redis_password = \"secret\"",
    setting "redis_db" "0", remark "",
    remark "[rpc]",
    setting "rpc_host" "\"0.0.0.0\"",
    setting "rpc_port" "8545", remark "",
    remark "[chain]",
    setting "chain_id" "100100",
    setting "block_gas_limit" "30000000",
    setting "block_time_ms" "10",
    setting "base_fee_initial" "1000000", remark "",
    remark "[sequencer]",
    remark "# sequencer_key = \"/path/to/sequencer.key\"",
    setting "log_level" "2"]

/-- A configuration with nothing in it. -/
def blankConfig : Config := ⟨[], 0, none, 0, [], 0, 0, 0, 0, 0⟩

/-- What the file says about blocks has names of no field, so gas limit and base fee are left. -/
theorem configLoad_written_evmdbToml :
    configLoad blankConfig (some (written evmdbToml)) =
      (0, { configDefaults with gasLimit := 0, baseFee := 0 }) := by
  rw [configLoad_written]
  decide +kernel

/-! ### A configuration as a file -/

/-- A text in quotes. -/
def quoted (s : Bytes) : Bytes := 34 :: (s ++ [34])

/-- The texts of the fields, printed with `%s`, `%d` and `%llu`. -/
def Config.text (cfg : Config) : Field → Option Bytes
  | .redisHost => some (quoted cfg.redisHost)
  | .redisPort => some (decimal cfg.redisPort.toNat)
  | .redisPassword => cfg.redisPassword.map quoted
  | .redisDb => some (decimal cfg.redisDb.toNat)
  | .rpcHost => some (quoted cfg.rpcHost)
  | .rpcPort => some (decimal cfg.rpcPort.toNat)
  | .chainId => some (decimal cfg.chainId.toNat)
  | .gasLimit => some (decimal cfg.gasLimit.toNat)
  | .baseFee => some (decimal cfg.baseFee.toNat)
  | .logLevel => some (decimal cfg.logLevel.toNat)

def fields : List Field :=
  [.redisHost, .redisPort, .redisPassword, .redisDb, .rpcHost, .rpcPort, .chainId, .gasLimit,
    .baseFee, .logLevel]

/-- The line of a field, if there is one. -/
def Config.line (cfg : Config) (f : Field) : Option Bytes :=
  (cfg.text f).map fun value => f.name ++ ascii " = " ++ value ++ [10]

/-- The file with a configuration. -/
def saved (cfg : Config) : Bytes := (fields.filterMap cfg.line).flatten

/-- A text that a line can hold. -/
def TextFits (s : Bytes) : Prop := s.length ≤ 253 ∧ ∀ c ∈ s, c ≠ 10 ∧ c ≠ 0

instance (s : Bytes) : Decidable (TextFits s) :=
  decidable_of_iff (s.length ≤ 253 ∧ (s.all fun c => c ≠ 10 ∧ c ≠ 0) = true)
    (by simp [TextFits])

/-- A number that `%d` prints without a sign. -/
def NumberFits (n : ℤ) : Prop := 0 ≤ n ∧ n < 2 ^ 31

/-- A configuration that a file can hold. -/
structure Config.Fits (cfg : Config) : Prop where
  redisHost : TextFits cfg.redisHost
  redisPort : NumberFits cfg.redisPort
  redisPassword : ∀ s ∈ cfg.redisPassword, TextFits s
  redisDb : NumberFits cfg.redisDb
  rpcHost : TextFits cfg.rpcHost
  rpcPort : NumberFits cfg.rpcPort
  logLevel : NumberFits cfg.logLevel

/-- The nearest word that `atoll` reads. -/
def capped (v : UInt64) : UInt64 := UInt64.ofNat (min v.toNat (2 ^ 63 - 1))

lemma valueFits_quoted {s : Bytes} (h : TextFits s) : ValueFits (quoted s) where
  filled := ⟨List.cons_ne_nil _ _, by
    have hlength := h.1
    simp only [quoted, List.length_cons, List.length_append, List.length_nil]
    omega⟩
  chars := by
    intro c hc
    simp only [quoted, List.mem_cons, List.mem_append, List.not_mem_nil, or_false] at hc
    rcases hc with rfl | hc | rfl
    · decide
    · exact h.2 c hc
    · decide
  first := by
    intro c hc
    cases hc
    rfl

lemma valueFits_decimal {n : ℕ} (h : n < 2 ^ 64) : ValueFits (decimal n) where
  filled := by
    refine ⟨by simpa [decimal] using digits_ne_nil 10 n, ?_⟩
    have hlength : (digits 10 n).length ≤ 20 := length_digits_le (by omega) (by omega) (by omega)
    rw [decimal, List.length_map]
    omega
  chars := by
    intro c hc
    have hdigit := isDigit_decimal n c hc
    refine ⟨?_, ?_⟩ <;> rintro rfl <;> cases hdigit
  first := by
    intro c hc
    exact isSpace_of_isDigit (isDigit_decimal n c (List.mem_of_head? hc))

lemma valueFits_number {n : ℤ} (h : NumberFits n) : ValueFits (decimal n.toNat) :=
  valueFits_decimal (by have hlt := h.2; omega)

/-- Every field of a configuration that fits can be printed. -/
lemma Config.Fits.text {cfg : Config} (h : cfg.Fits) (f : Field) :
    ∀ value ∈ cfg.text f, ValueFits value := by
  cases f with
  | redisHost => rintro _ ⟨⟩; exact valueFits_quoted h.redisHost
  | redisPort => rintro _ ⟨⟩; exact valueFits_number h.redisPort
  | redisPassword =>
    intro value hvalue
    obtain ⟨s, hs, rfl⟩ := Option.mem_map.mp hvalue
    exact valueFits_quoted (h.redisPassword s hs)
  | redisDb => rintro _ ⟨⟩; exact valueFits_number h.redisDb
  | rpcHost => rintro _ ⟨⟩; exact valueFits_quoted h.rpcHost
  | rpcPort => rintro _ ⟨⟩; exact valueFits_number h.rpcPort
  | chainId => rintro _ ⟨⟩; exact valueFits_decimal cfg.chainId.toNat_lt
  | gasLimit => rintro _ ⟨⟩; exact valueFits_decimal cfg.gasLimit.toNat_lt
  | baseFee => rintro _ ⟨⟩; exact valueFits_decimal cfg.baseFee.toNat_lt
  | logLevel => rintro _ ⟨⟩; exact valueFits_number h.logLevel

lemma unquote_quoted (s : Bytes) : unquote (quoted s) = s := by
  unfold unquote quoted
  rw [if_pos, ← List.cons_append, List.dropLast_concat, List.tail_cons]
  refine ⟨by simp, rfl, ?_⟩
  rw [← List.cons_append, List.getLast?_concat]

lemma unquote_decimal (n : ℕ) : unquote (decimal n) = decimal n := by
  refine if_neg fun h => ?_
  have hdigit := isDigit_decimal n 34 (List.mem_of_head? h.2.1)
  cases hdigit

lemma atoi_decimal {n : ℤ} (h : NumberFits n) : atoi (decimal n.toNat) = n := by
  obtain ⟨hle, hlt⟩ := h
  unfold atoi
  rw [atol_decimal, Int.toNat_of_nonneg hle, min_eq_left (by omega)]
  exact Int.bmod_eq_of_le (by omega) (by omega)

lemma atollUnsigned_decimal (v : UInt64) : atollUnsigned (decimal v.toNat) = capped v := by
  have hmin : (min (v.toNat : ℤ) (2 ^ 63 - 1) % 2 ^ 64).toNat = min v.toNat (2 ^ 63 - 1) := by
    omega
  unfold atollUnsigned capped UInt64.ofInt
  rw [atol_decimal, hmin]

lemma capped_eq_self {v : UInt64} (h : v.toNat < 2 ^ 63) : capped v = v := by
  unfold capped
  rw [min_eq_left (by omega), UInt64.ofNat_toNat]

lemma nameFits_name (f : Field) : NameFits f.name := by
  cases f <;> decide

/-- The line of a field. -/
def Field.setting (f : Field) {value : Bytes} (h : ValueFits value) : Setting :=
  assignment (nameFits_name f) h

/-- A field as it is set. -/
def entry (text : Field → Option Bytes) (f : Field) : Option (Bytes × Bytes) :=
  (text f).map fun value => (f.name, value)

/-- A field that is set once. -/
lemma lastSetting_entries (text : Field → Option Bytes) {fs : List Field} (hfs : fs.Nodup)
    (f : Field) : lastSetting (fs.filterMap (entry text)) f = if f ∈ fs then text f else none := by
  induction fs with
  | nil => rfl
  | cons g fs ih =>
    obtain ⟨hg, hfs⟩ := List.nodup_cons.mp hfs
    replace ih := ih hfs
    rcases htext : text g with _ | value
    · have hentry : entry text g = none := by rw [entry, htext]; rfl
      rw [List.filterMap_cons_none hentry, ih]
      by_cases hf : f = g
      · rw [hf, if_neg hg, htext, ite_self]
      · simp only [List.mem_cons, hf, false_or]
    · have hentry : entry text g = some (g.name, value) := by rw [entry, htext]; rfl
      unfold lastSetting at ih ⊢
      rw [List.filterMap_cons_some hentry, List.reverse_cons, List.findSome?_append, ih]
      by_cases hf : f = g
      · rw [hf, if_neg hg, if_pos List.mem_cons_self, htext]
        simp
      · have hname : g.name ≠ f.name := fun h => hf (name_injective h).symm
        simp [hf, hname]

/-- A saved configuration is a file of settings. -/
lemma Config.Fits.lines {cfg : Config} (h : cfg.Fits) (fs : List Field) : ∃ lines : List Line,
    written lines = (fs.filterMap cfg.line).flatten ∧
    lines.filterMap Line.sets = fs.filterMap (entry fun f => (cfg.text f).map unquote) := by
  induction fs with
  | nil => exact ⟨[], rfl, rfl⟩
  | cons f fs ih =>
    obtain ⟨lines, hwritten, hsets⟩ := ih
    rcases htext : cfg.text f with _ | value
    · have hline : cfg.line f = none := by rw [Config.line, htext]; rfl
      have hentry : entry (fun f => (cfg.text f).map unquote) f = none := by
        rw [entry, htext]
        rfl
      refine ⟨lines, ?_, ?_⟩
      · rw [List.filterMap_cons_none hline, hwritten]
      · rw [List.filterMap_cons_none hentry, hsets]
    · have hline : cfg.line f = some (f.name ++ ascii " = " ++ value ++ [10]) := by
        rw [Config.line, htext]
        rfl
      have hentry : entry (fun f => (cfg.text f).map unquote) f = some (f.name, unquote value) := by
        rw [entry, htext]
        rfl
      have hchars : (Line.setting (f.setting (h.text f value htext))).chars =
          f.name ++ ascii " = " ++ value := by
        show [] ++ (f.name ++ ([32] ++ 61 :: ([32] ++ value))) = _
        rw [List.nil_append, List.append_assoc]
        rfl
      refine ⟨.setting (f.setting (h.text f value htext)) :: lines, ?_, ?_⟩
      · rw [List.filterMap_cons_some hline, List.flatten_cons, ← hwritten, ← hchars]
        rfl
      · rw [List.filterMap_cons_some hentry, ← hsets]
        rfl

/-- **A saved configuration is loaded again**, with its words up to the largest that `atoll`
reads. -/
theorem configLoad_saved {cfg : Config} (h : cfg.Fits) :
    configLoad configDefaults (some (saved cfg)) =
      (0, { cfg with
        chainId := capped cfg.chainId
        gasLimit := capped cfg.gasLimit
        baseFee := capped cfg.baseFee }) := by
  obtain ⟨lines, hwritten, hsets⟩ := h.lines fields
  have hlast : lastSetting (lines.filterMap Line.sets) = fun f => (cfg.text f).map unquote := by
    funext f
    have hmem : f ∈ fields := by cases f <;> decide
    rw [hsets, lastSetting_entries _ (by decide), if_pos hmem]
  unfold saved
  rw [← hwritten, configLoad_written, hlast]
  simp only [configOf, Config.text, Option.map_some, Option.getD_some, unquote_quoted,
    unquote_decimal, atollUnsigned_decimal, atoi_decimal h.redisPort, atoi_decimal h.redisDb,
    atoi_decimal h.rpcPort, atoi_decimal h.logLevel, Option.map_map]
  rcases cfg.redisPassword with _ | s
  · rfl
  · simp [unquote_quoted]

/-- A configuration that shares no field with the defaults. -/
def ownConfig : Config where
  redisHost := ascii "redis.local"
  redisPort := 6380
  redisPassword := some (ascii "a \"b\" = c")
  redisDb := 3
  rpcHost := ascii "::1"
  rpcPort := 80
  chainId := 0x8000000000000005
  gasLimit := 15000000
  baseFee := 7
  logLevel := 0

/-- It is loaded over the defaults, its chain id as 2^63 - 1. -/
theorem configLoad_saved_ownConfig :
    configLoad configDefaults (some (saved ownConfig)) =
      (0, { ownConfig with chainId := 0x7fffffffffffffff }) := by
  have hfits : ownConfig.Fits := by
    refine ⟨by decide, ⟨by decide, by decide⟩, ?_, ⟨by decide, by decide⟩, by decide,
      ⟨by decide, by decide⟩, ⟨by decide, by decide⟩⟩
    rintro _ ⟨⟩
    decide
  rw [configLoad_saved hfits]
  decide

end EvmDb.ConfigFile
