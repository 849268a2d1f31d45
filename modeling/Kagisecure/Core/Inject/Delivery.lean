import Mathlib
import Kagisecure.Library.Fallible
import Kagisecure.Library.Lists
import Kagisecure.Core.Model

/-!
# Handing variables over

A process gets an environment's variables as a file of one line each, or once on its standard
input, each name and value ended by a zero byte. Values are any bytes: in the file one that is not
of plain characters alone is quoted and escaped, and on standard input one with a zero byte in it is
refused.

## Main definitions

- `EnvFile.render` writes the file, `EnvFile.read` reads it back.
- `stdinPayload` writes what is sent on standard input, `readPayload` reads it back.

## Main results

- `EnvFile.read_render`: a file's lines are the variables.
- `delivered`: either way, what is read back is the variables that were handed over.
-/

namespace Kagisecure

/-- A name's bytes. -/
def VarName.bytes (name : VarName) : List UInt8 := name.name.toByteArray.data.toList

/-- The byte of a letter, a digit or an underscore. -/
theorem utf8EncodeChar_of_isAlphanum {c : Char} (h : c.isAlphanum ∨ c = '_') :
    ∃ b : UInt8, String.utf8EncodeChar c = [b] ∧ b ≠ 0 ∧ b ≠ 0x0a ∧ b ≠ 0x3d := by
  have hval : c.toNat ≤ 127 ∧ c.toNat ≠ 0 ∧ c.toNat ≠ 0x0a ∧ c.toNat ≠ 0x3d := by
    rcases h with h | rfl
    · simp only [Char.isAlphanum, Char.isAlpha, Char.isUpper, Char.isLower, Char.isDigit,
        Bool.or_eq_true, Bool.and_eq_true, decide_eq_true_eq, ge_iff_le, UInt32.le_iff_toNat_le,
        Char.toNat_val, Char.reduceToNat] at h
      omega
    · decide
  have hsize : c.utf8Size = 1 :=
    Char.utf8Size_eq_one_iff.2 (UInt32.le_iff_toNat_le.2 hval.1)
  have hnat : c.val.toUInt8.toNat = c.toNat := by
    rw [UInt32.toNat_toUInt8, Char.toNat_val, Nat.mod_eq_of_lt (by omega)]
  have hne : ∀ b : UInt8, c.toNat ≠ b.toNat → c.val.toUInt8 ≠ b := by
    intro b hb heq
    exact hb (hnat.symm.trans (congrArg UInt8.toNat heq))
  exact ⟨c.val.toUInt8, String.utf8EncodeChar_eq_singleton hsize, hne 0 hval.2.1,
    hne 0x0a hval.2.2.1, hne 0x3d hval.2.2.2⟩

/-- In a name there is no zero byte, no newline and no equals sign. -/
theorem VarName.mem_bytes {name : VarName} {b : UInt8} (hb : b ∈ name.bytes) :
    b ≠ 0 ∧ b ≠ 0x0a ∧ b ≠ 0x3d := by
  obtain ⟨-, first, rest, hlist, hfirst, hrest⟩ := name.valid
  have hchar : ∀ c ∈ name.name.toList, c.isAlphanum ∨ c = '_' := by
    intro c hc
    rw [hlist, List.mem_cons] at hc
    rcases hc with rfl | hc
    · exact hfirst.imp_left fun h => by simp [Char.isAlphanum, h]
    · exact hrest c hc
  have hbytes : name.bytes = name.name.toList.flatMap String.utf8EncodeChar := by
    rw [VarName.bytes, ← String.utf8Encode_toList, List.utf8Encode]
    simp
  rw [hbytes, List.mem_flatMap] at hb
  obtain ⟨c, hc, hb⟩ := hb
  obtain ⟨b', hencode, hb'⟩ := utf8EncodeChar_of_isAlphanum (hchar c hc)
  rw [hencode, List.mem_singleton] at hb
  rwa [hb]

namespace EnvFile

/-- A character, as the byte it is written as. -/
def ascii (c : Char) : UInt8 := c.toUInt8

/-- The file's first line. -/
def COMMENT : List UInt8 :=
  "# Written by kagisecure. Do not commit.".toByteArray.data.toList

/-- Whether a value's byte is written as it is, without quotes. -/
def isPlain (b : UInt8) : Bool :=
  (ascii '0' ≤ b && b ≤ ascii '9') || (ascii 'A' ≤ b && b ≤ ascii 'Z') ||
    (ascii 'a' ≤ b && b ≤ ascii 'z') ||
    b == ascii '_' || b == ascii '-' || b == ascii '.' || b == ascii '/' || b == ascii ':' ||
    b == ascii '@' || b == ascii '+' || b == ascii ','

/-- A value's byte, between quotes. -/
def escape (b : UInt8) : List UInt8 :=
  if b = ascii '\\' then [ascii '\\', ascii '\\']
  else if b = ascii '"' then [ascii '\\', ascii '"']
  else if b = ascii '\n' then [ascii '\\', ascii 'n']
  else if b = ascii '\r' then [ascii '\\', ascii 'r']
  else if b = ascii '\t' then [ascii '\\', ascii 't']
  else if b = ascii '$' then [ascii '\\', ascii '$']
  else [b]

/-- Write one line, quoting the value when it needs it. -/
def pushLine (out : List UInt8) (name : VarName) (value : List UInt8) : List UInt8 :=
  let out := out ++ name.bytes ++ [ascii '=']
  if value.isEmpty || value.any fun b => !isPlain b then
    out ++ [ascii '"'] ++ value.flatMap escape ++ [ascii '"'] ++ [ascii '\n']
  else out ++ value ++ [ascii '\n']

/-- Write the whole file. -/
def render (injections : List EnvInjection) : List UInt8 :=
  injections.foldl (fun out i => pushLine out i.name i.value) (COMMENT ++ [ascii '\n'])

/-! ### Reading the file -/

/-- The byte an escape stands for. -/
def unescape (b : UInt8) : Option UInt8 :=
  if b = ascii '\\' then some (ascii '\\')
  else if b = ascii '"' then some (ascii '"')
  else if b = ascii 'n' then some (ascii '\n')
  else if b = ascii 'r' then some (ascii '\r')
  else if b = ascii 't' then some (ascii '\t')
  else if b = ascii '$' then some (ascii '$')
  else none

/-- Read what is between quotes, up to the closing one. -/
def readQuoted : List UInt8 → Option (List UInt8)
  | [] => none
  | [b] => if b = ascii '"' then some [] else none
  | b :: e :: rest =>
    if b = ascii '"' then none
    else if b = ascii '\\' then (unescape e).bind fun b => (readQuoted rest).map (b :: ·)
    else (readQuoted (e :: rest)).map (b :: ·)

/-- Read a value, quoted or not. -/
def readValue : List UInt8 → Option (List UInt8)
  | [] => some []
  | b :: rest => if b = ascii '"' then readQuoted rest else some (b :: rest)

/-- Read a line: a name up to the equals sign, and a value. -/
def readLine (line : List UInt8) : Option (List UInt8 × List UInt8) :=
  let name := line.takeWhile (· ≠ ascii '=')
  match line.drop name.length with
  | [] => none
  | _ :: value => (readValue value).map fun value => (name, value)

/-- A value as the file has it. -/
def written (value : List UInt8) : List UInt8 :=
  if value.isEmpty || value.any fun b => !isPlain b then
    ascii '"' :: (value.flatMap escape ++ [ascii '"'])
  else value

/-- A variable's line. -/
def line (i : EnvInjection) : List UInt8 := i.name.bytes ++ ascii '=' :: written i.value

/-- A line is written after what there is. -/
theorem pushLine_eq (out : List UInt8) (i : EnvInjection) :
    pushLine out i.name i.value = out ++ (line i ++ [ascii '\n']) := by
  unfold pushLine line written
  dsimp only
  split <;> simp only [List.append_assoc, List.cons_append, List.nil_append]

/-- The file is its lines, each ended by a newline. -/
theorem render_eq (injections : List EnvInjection) :
    render injections =
      (COMMENT :: injections.map line).flatMap fun line => line ++ [ascii '\n'] := by
  have hfold : ∀ (injections : List EnvInjection) out,
      injections.foldl (fun out i => pushLine out i.name i.value) out =
        out ++ (injections.map line).flatMap fun line => line ++ [ascii '\n'] := by
    intro injections
    induction injections with
    | nil => intro out; exact (List.append_nil out).symm
    | cons i injections ih =>
      intro out
      rw [List.foldl_cons, ih, pushLine_eq, List.map_cons, List.flatMap_cons, List.append_assoc]
  rw [render, hfold, List.flatMap_cons]

/-- What is escaped has no newline. -/
theorem newline_not_mem_escape (b : UInt8) : ascii '\n' ∉ escape b := by
  unfold escape
  split_ifs with h₁ h₂ h₃ h₄ h₅ h₆
  case neg => exact fun hmem => h₃ (List.mem_singleton.1 hmem).symm
  all_goals decide

/-- A plain byte is no newline, and no quote. -/
theorem ne_of_isPlain {b : UInt8} (h : isPlain b = true) : b ≠ ascii '\n' ∧ b ≠ ascii '"' := by
  constructor
  · rintro rfl
    exact absurd h (by decide)
  · rintro rfl
    exact absurd h (by decide)

/-- No value adds a line. -/
theorem newline_not_mem_line (i : EnvInjection) : ascii '\n' ∉ line i := by
  rw [line, List.mem_append, List.mem_cons, not_or, not_or]
  refine ⟨fun h => (VarName.mem_bytes h).2.1 rfl, by decide, ?_⟩
  unfold written
  split
  next =>
    rw [List.mem_cons, List.mem_append, List.mem_flatMap, List.mem_singleton]
    rintro (h | ⟨b, -, h⟩ | h)
    · exact absurd h (by decide)
    · exact newline_not_mem_escape b h
    · exact absurd h (by decide)
  next hplain =>
    intro h
    simp only [Bool.or_eq_true, List.any_eq_true, not_or, not_exists, not_and,
      Bool.not_eq_true', Bool.not_eq_false] at hplain
    exact (ne_of_isPlain (hplain.2 _ h)).1 rfl

/-- An escaped byte is read back. -/
theorem readQuoted_escape (b : UInt8) {rest : List UInt8} (hrest : rest ≠ []) :
    readQuoted (escape b ++ rest) = (readQuoted rest).map (b :: ·) := by
  obtain ⟨e, rest, rfl⟩ := List.exists_cons_of_ne_nil hrest
  unfold escape
  split_ifs with h₁ h₂ h₃ h₄ h₅ h₆
  case neg =>
    rw [List.singleton_append, readQuoted, if_neg h₂, if_neg h₁]
  -- what an escape stands for is what was escaped
  all_goals
    subst_vars
    rw [List.cons_append, List.singleton_append, readQuoted, if_neg (by decide), if_pos rfl]
    rfl

/-- A quoted value is read back. -/
theorem readQuoted_flatMap_escape (value : List UInt8) :
    readQuoted (value.flatMap escape ++ [ascii '"']) = some value := by
  induction value with
  | nil => rfl
  | cons b value ih =>
    rw [List.flatMap_cons, List.append_assoc, readQuoted_escape b (by simp), ih]
    rfl

/-- A value is read back. -/
theorem readValue_written (value : List UInt8) : readValue (written value) = some value := by
  unfold written
  split
  next =>
    rw [readValue, if_pos rfl]
    exact readQuoted_flatMap_escape value
  next hplain =>
    cases value with
    | nil => rfl
    | cons b value =>
      simp only [Bool.or_eq_true, List.any_eq_true, not_or, not_exists, not_and,
        Bool.not_eq_true', Bool.not_eq_false] at hplain
      rw [readValue, if_neg (ne_of_isPlain (hplain.2 b List.mem_cons_self)).2]

/-- A line is read back as the variable it was written for. -/
theorem readLine_line (i : EnvInjection) : readLine (line i) = some (i.name.bytes, i.value) := by
  have hname : (line i).takeWhile (· ≠ ascii '=') = i.name.bytes := by
    rw [line, List.takeWhile_append_of_pos fun b hb => ?_, List.takeWhile_cons_of_neg (by simp),
      List.append_nil]
    exact decide_eq_true (VarName.mem_bytes hb).2.2
  unfold readLine
  dsimp only
  rw [hname, line, List.drop_left]
  show (readValue (written i.value)).map _ = _
  rw [readValue_written]
  rfl

end EnvFile

/-- The most bytes sent on standard input. -/
def MAX_STDIN_PAYLOAD : ℕ := 8 * 1024

/-- Write one variable to what is sent on standard input. -/
def pushPair (payload : List UInt8) (injection : EnvInjection) : Except Core.Error (List UInt8) :=
  if injection.value.contains 0 ∨
      payload.length + injection.name.bytes.length + injection.value.length + 2 >
        MAX_STDIN_PAYLOAD then
    .error (.unsendableOnStdin injection.name.name)
  else .ok (payload ++ injection.name.bytes ++ [0] ++ injection.value ++ [0])

/-- What is sent on standard input. -/
def stdinPayload (env : List EnvInjection) : Except Core.Error (List UInt8) := env.foldlM pushPair []

/-- Read names and values back, one after the other. -/
def readPairs : List (List UInt8) → Option (List (List UInt8 × List UInt8))
  | [[]] => some []
  | name :: value :: rest => (readPairs rest).map ((name, value) :: ·)
  | _ => none

/-- A variable, as it is sent on standard input. -/
def pair (i : EnvInjection) : List UInt8 := i.name.bytes ++ [0] ++ i.value ++ [0]

theorem length_pair (i : EnvInjection) :
    (pair i).length = i.name.bytes.length + i.value.length + 2 := by
  simp only [pair, List.length_append, List.length_singleton]
  omega

/-- A variable is sent if it can be cut out again, and if there is room. -/
theorem pushPair_eq_ok_iff {payload payload' : List UInt8} {i : EnvInjection} :
    pushPair payload i = .ok payload' ↔
      0 ∉ i.value ∧ payload'.length ≤ MAX_STDIN_PAYLOAD ∧ payload' = payload ++ pair i := by
  have hlen : (payload ++ pair i).length =
      payload.length + i.name.bytes.length + i.value.length + 2 := by
    rw [List.length_append, length_pair]
    omega
  have hpair : payload ++ i.name.bytes ++ [0] ++ i.value ++ [0] = payload ++ pair i := by
    simp only [pair, List.append_assoc]
  unfold pushPair
  rw [hpair, ← hlen]
  simp only [List.contains_iff_mem]
  constructor
  · intro h
    split at h
    next => cases h
    next hfits =>
      cases h
      rw [not_or, not_lt] at hfits
      exact ⟨hfits.1, hfits.2, rfl⟩
  · rintro ⟨hzero, hfits, rfl⟩
    rw [if_neg (not_or.2 ⟨hzero, not_lt.2 hfits⟩)]

/-- A variable that is refused is named. -/
theorem error_of_pushPair {payload : List UInt8} {i : EnvInjection} {why : Core.Error}
    (h : pushPair payload i = .error why) : why = .unsendableOnStdin i.name.name := by
  unfold pushPair at h
  split at h
  · exact (Except.error.inj h).symm
  · cases h

/-- Variables are sent one after the other. -/
theorem foldlM_pushPair {env : List EnvInjection} {payload payload' : List UInt8}
    (hpayload : payload.length ≤ MAX_STDIN_PAYLOAD) :
    env.foldlM pushPair payload = .ok payload' ↔
      (∀ i ∈ env, 0 ∉ i.value) ∧ payload'.length ≤ MAX_STDIN_PAYLOAD ∧
        payload' = payload ++ env.flatMap pair := by
  induction env generalizing payload with
  | nil =>
    rw [List.foldlM_nil, List.flatMap_nil, List.append_nil]
    constructor
    · rintro ⟨⟩
      exact ⟨by simp, hpayload, rfl⟩
    · rintro ⟨-, -, rfl⟩
      rfl
  | cons i env ih =>
    rw [List.foldlM_cons, Except.bind_eq_ok]
    constructor
    · rintro ⟨mid, hone, h⟩
      obtain ⟨hzero, hmid, rfl⟩ := pushPair_eq_ok_iff.1 hone
      obtain ⟨hzeros, hfits, rfl⟩ := (ih hmid).1 h
      refine ⟨List.forall_mem_cons.2 ⟨hzero, hzeros⟩, hfits, ?_⟩
      rw [List.flatMap_cons, List.append_assoc]
    · rintro ⟨hzeros, hfits, rfl⟩
      obtain ⟨hzero, hzeros⟩ := List.forall_mem_cons.1 hzeros
      have hmid : (payload ++ pair i).length ≤ MAX_STDIN_PAYLOAD := by
        refine le_trans ?_ hfits
        simp only [List.flatMap_cons, List.length_append]
        omega
      refine ⟨_, pushPair_eq_ok_iff.2 ⟨hzero, hmid, rfl⟩, (ih hmid).2 ⟨hzeros, hfits, ?_⟩⟩
      rw [List.flatMap_cons, List.append_assoc]

/-- What is refused is refused for one of the variables. -/
theorem error_of_foldlM_pushPair {env : List EnvInjection} {payload : List UInt8}
    {why : Core.Error} (h : env.foldlM pushPair payload = .error why) :
    ∃ i ∈ env, why = .unsendableOnStdin i.name.name := by
  induction env generalizing payload with
  | nil => cases h
  | cons i env ih =>
    rw [List.foldlM_cons] at h
    cases hone : pushPair payload i with
    | error why' =>
      rw [hone] at h
      cases h
      exact ⟨i, List.mem_cons_self, error_of_pushPair hone⟩
    | ok mid =>
      rw [hone] at h
      obtain ⟨i', hi', hwhy⟩ := ih h
      exact ⟨i', List.mem_cons_of_mem i hi', hwhy⟩

/-- What is sent, cut at the zero bytes, is the names and values. -/
theorem readPairs_splitOn {env : List EnvInjection} (h : ∀ i ∈ env, 0 ∉ i.value) :
    readPairs ((env.flatMap pair).splitOn 0) =
      some (env.map fun i => (i.name.bytes, i.value)) := by
  have hpieces : env.flatMap pair =
      (env.flatMap fun i => [i.name.bytes, i.value]).flatMap fun piece => piece ++ [0] := by
    rw [List.flatMap_assoc]
    refine List.flatMap_congr fun i _ => ?_
    simp only [pair, List.flatMap_cons, List.flatMap_nil, List.append_assoc, List.append_nil]
  have hzero : ∀ piece ∈ env.flatMap fun i => [i.name.bytes, i.value], 0 ∉ piece := by
    intro piece hpiece hmem
    obtain ⟨i, hi, hpiece⟩ := List.mem_flatMap.1 hpiece
    rw [List.mem_cons, List.mem_singleton] at hpiece
    rcases hpiece with rfl | rfl
    · exact (VarName.mem_bytes hmem).1 rfl
    · exact h i hi hmem
  rw [hpieces, List.splitOn_flatMap_concat hzero]
  clear hpieces hzero h
  induction env with
  | nil => rfl
  | cons i env ih =>
    rw [List.flatMap_cons, List.append_assoc, List.cons_append, List.singleton_append, readPairs, ih]
    rfl

/-- Delivered variables are exactly the resolved ones: the file's lines are its comment and one line
for each variable, read back as its name and value; what is sent on standard input, cut at its zero
bytes, is the names and values; and it is sent where no value has a zero byte and all fits, else
refused for one of the variables. -/
theorem delivered :
    (∀ injections, ∃ lines,
      (EnvFile.render injections).splitOn (EnvFile.ascii '\n') =
        EnvFile.COMMENT :: (lines ++ [[]]) ∧
      lines.map EnvFile.readLine = injections.map fun i => some (i.name.bytes, i.value)) ∧
    (∀ env payload, stdinPayload env = .ok payload →
      readPairs (payload.splitOn 0) = some (env.map fun i => (i.name.bytes, i.value))) ∧
    (∀ env, (∃ payload, stdinPayload env = .ok payload) ↔
      (∀ i ∈ env, 0 ∉ i.value) ∧
        (env.map fun i => i.name.bytes.length + i.value.length + 2).sum ≤ MAX_STDIN_PAYLOAD) ∧
    ∀ env why, stdinPayload env = .error why →
      ∃ i ∈ env, why = .unsendableOnStdin i.name.name := by
  have hsent : ∀ {env payload}, stdinPayload env = .ok payload ↔
      (∀ i ∈ env, 0 ∉ i.value) ∧ payload.length ≤ MAX_STDIN_PAYLOAD ∧
        payload = env.flatMap pair := foldlM_pushPair (Nat.zero_le _)
  refine ⟨fun injections => ⟨injections.map EnvFile.line, ?_, ?_⟩, fun env payload h => ?_,
    fun env => ?_, fun env why h => error_of_foldlM_pushPair h⟩
  · have hlines : ∀ l ∈ EnvFile.COMMENT :: injections.map EnvFile.line,
        EnvFile.ascii '\n' ∉ l := by
      refine List.forall_mem_cons.2 ⟨by decide, fun l hl => ?_⟩
      obtain ⟨i, -, rfl⟩ := List.mem_map.1 hl
      exact EnvFile.newline_not_mem_line i
    rw [EnvFile.render_eq, List.splitOn_flatMap_concat hlines, List.cons_append]
  · rw [List.map_map]
    exact List.map_congr_left fun i _ => EnvFile.readLine_line i
  · obtain ⟨hzero, -, rfl⟩ := hsent.1 h
    exact readPairs_splitOn hzero
  · have hlen : (env.flatMap pair).length =
        (env.map fun i => i.name.bytes.length + i.value.length + 2).sum := by
      rw [List.length_flatMap]
      exact congrArg List.sum (List.map_congr_left fun i _ => length_pair i)
    rw [← hlen]
    constructor
    · rintro ⟨payload, h⟩
      obtain ⟨hzero, hfits, rfl⟩ := hsent.1 h
      exact ⟨hzero, hfits⟩
    · rintro ⟨hzero, hfits⟩
      exact ⟨_, hsent.2 ⟨hzero, hfits, rfl⟩⟩

end Kagisecure
