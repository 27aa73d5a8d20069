import Mathlib
import CliffordT.Json.Reader
import CliffordT.Json.Writer

/-!
# Reading back JSON

A list of strings that was written as JSON is read as it was, whatever characters the strings have.  A character is
written as itself or by an escape, and either way the reader gets its number back (`readUnits_writeChar`); a number that
belongs to a character is never half of a pair, so the numbers of a string give the string (`joinUnits_map_toNat`).  Each
string is read up to its closing quote and no further (`readString_writeString`), and so are the items of an array
(`readItems_strings`).
-/

namespace CliffordT.Json

/-! ### Characters -/

private theorem hexDigit?_hexDigit {d : Nat} (h : d < 16) : hexDigit? (Text.hexDigit d) = some d := by
  have hall : ∀ d : Fin 16, hexDigit? (Text.hexDigit d) = some d.val := by decide
  exact hall ⟨d, h⟩

private theorem hexUnit?_hex (width n : Nat) : hexUnit? (Text.hex width n) = some (n % 16 ^ width) := by
  induction width generalizing n with
  | zero => simp [Text.hex, hexUnit?, Nat.mod_one]
  | succ width ih =>
    have hfront := ih (n / 16)
    have hdigit := hexDigit?_hexDigit (Nat.mod_lt n (by decide : 0 < 16))
    unfold hexUnit? at hfront ⊢
    rw [Text.hex, List.foldlM_append, hfront]
    simp only [List.foldlM_cons, List.foldlM_nil, hdigit, bind, Option.bind, Option.map_some, pure, Option.some.injEq]
    rw [Nat.pow_succ', Nat.mod_mul, Nat.mul_comm, Nat.add_comm]

section

variable {rest rest' : List Char} {units : List Nat}

/-- A character behind a backslash. -/
private theorem readUnits_escape {e c : Char} (he : e ≠ 'u') (hc : escape? e = some c)
    (h : readUnits rest = .ok (units, rest')) : readUnits ('\\' :: e :: rest) = .ok (c.toNat :: units, rest') := by
  rw [readUnits.eq_3 _ _ fun _ _ _ _ _ hu _ => he hu, if_neg he, hc, h]
  rfl

/-- A character by its number. -/
private theorem readUnits_hex {n : Nat} (hn : n < 16 ^ 4) (h : readUnits rest = .ok (units, rest')) :
    readUnits ('\\' :: 'u' :: (Text.hex 4 n ++ rest)) = .ok (n :: units, rest') := by
  have hunit := hexUnit?_hex 4 n
  rw [Nat.mod_eq_of_lt hn] at hunit
  simp only [Text.hex, List.nil_append, List.cons_append] at hunit ⊢
  rw [readUnits.eq_2, hunit, h]
  rfl

/-- A character as it is. -/
private theorem readUnits_plain {c : Char} (hquote : c ≠ '"') (hslash : c ≠ '\\') (hc : ¬ c.toNat < 32)
    (h : readUnits rest = .ok (units, rest')) : readUnits (c :: rest) = .ok (c.toNat :: units, rest') := by
  rw [readUnits.eq_4 _ _ (fun _ _ _ _ _ hback _ => hslash hback) fun _ _ hback _ => hslash hback, if_neg hquote,
    if_neg hslash, if_neg hc, h]
  rfl

/-- However a character is written, its number is read. -/
theorem readUnits_writeChar (c : Char) (h : readUnits rest = .ok (units, rest')) :
    readUnits (writeChar c ++ rest) = .ok (c.toNat :: units, rest') := by
  unfold writeChar
  split
  · exact readUnits_escape (by decide) rfl h
  · exact readUnits_escape (by decide) rfl h
  · exact readUnits_escape (by decide) rfl h
  · exact readUnits_escape (by decide) rfl h
  · exact readUnits_escape (by decide) rfl h
  · rename_i hquote hslash _ _ _
    dsimp only
    split
    · rename_i hc
      rw [hc]
      exact readUnits_escape (by decide) (c := Char.ofNat 8) rfl h
    · split
      · rename_i hc
        rw [hc]
        exact readUnits_escape (by decide) (c := Char.ofNat 12) rfl h
      · split
        · rename_i hescaped
          refine readUnits_hex ?_ h
          rcases hescaped with hc | rfl | rfl | rfl | hc | hc
          · omega
          · decide
          · decide
          · decide
          · omega
          · omega
        · rename_i hplain
          exact readUnits_plain hquote hslash (fun hc => hplain (Or.inl hc)) h

private theorem readUnits_flatMap_writeChar (cs : List Char) (rest : List Char) :
    readUnits (cs.flatMap writeChar ++ '"' :: rest) = .ok (cs.map Char.toNat, rest) := by
  induction cs with
  | nil => rfl
  | cons c cs ih =>
    rw [List.flatMap_cons, List.append_assoc, List.map_cons]
    exact readUnits_writeChar c ih

end

private theorem isHigh_toNat (c : Char) : (isHigh c.toNat || isLow c.toNat) = false := by
  have hvalid : c.toNat < 0xd800 ∨ 0xdfff < c.toNat ∧ c.toNat < 0x110000 := c.valid
  simp only [isHigh, isLow, Bool.or_eq_false_iff, Bool.and_eq_false_iff, decide_eq_false_iff_not]
  omega

/-- The number of a character is not half of a pair. -/
theorem joinUnits_map_toNat (cs : List Char) : joinUnits (cs.map Char.toNat) = cs := by
  induction cs with
  | nil => rfl
  | cons c cs ih =>
    have hhalf := isHigh_toNat c
    have hself : (if isHigh c.toNat || isLow c.toNat then Char.ofNat 0xfffd else Char.ofNat c.toNat) = c := by
      rw [hhalf, if_neg (by decide), Char.ofNat_toNat]
    cases cs with
    | nil => exact congrArg (· :: []) hself
    | cons d cs =>
      have hhigh : ¬ (isHigh c.toNat && isLow d.toNat) = true := by
        simp [(Bool.or_eq_false_iff.1 hhalf).1]
      rw [List.map_cons, List.map_cons, joinUnits, if_neg hhigh, hself, ← List.map_cons, ih]

/-! ### Strings -/

/-- A string is read up to its closing quote. -/
theorem readString_writeString (s : String) (rest : List Char) :
    ∃ cs, writeString s ++ rest = '"' :: cs ∧ readString cs = .ok (s, rest) := by
  refine ⟨s.toList.flatMap writeChar ++ '"' :: rest, by simp [writeString], ?_⟩
  unfold readString
  rw [readUnits_flatMap_writeChar]
  show Except.ok (String.ofList (joinUnits (s.toList.map Char.toNat)), rest) = _
  rw [joinUnits_map_toNat, String.ofList_toList]

private theorem skipBlank_newLine (depth : Nat) (cs : List Char) : skipBlank (newLine depth ++ cs) = skipBlank cs := by
  refine List.dropWhile_append_of_pos fun c hc => ?_
  rcases List.mem_cons.1 hc with rfl | hc
  · rfl
  · rw [List.eq_of_mem_replicate hc]
    rfl

private theorem skipBlank_writeString (s : String) (rest : List Char) :
    skipBlank (writeString s ++ rest) = writeString s ++ rest := by
  rw [writeString, List.cons_append]
  rfl

private theorem readValue_string {s : String} {cs rest : List Char} (h : skipBlank cs = writeString s ++ rest)
    (fuel depth : Nat) : readValue (fuel + 1) depth cs = .ok (.string s, rest) := by
  obtain ⟨inside, hquote, hread⟩ := readString_writeString s rest
  rw [readValue, h, hquote]
  simp only [hread]
  rfl

/-! ### Arrays of strings -/

/-- The items of an array are read up to its closing bracket. -/
theorem readItems_strings (indent outer depth : Nat) {s : String} {ss : List String} {cs rest : List Char}
    (h : skipBlank cs = writeString s ++ (writeItems indent (ss.map .string) ++ (newLine outer ++ ']' :: rest)))
    {fuel : Nat} (hfuel : ss.length + 2 ≤ fuel) :
    readItems fuel depth cs = .ok ((s :: ss).map .string, rest) := by
  obtain ⟨n, rfl⟩ : ∃ n, fuel = n + 1 + 1 := ⟨fuel - 2, by omega⟩
  induction ss generalizing s cs n with
  | nil =>
    have hbracket : skipBlank (newLine outer ++ ']' :: rest) = ']' :: rest := skipBlank_newLine outer _
    rw [readItems, readValue_string h]
    simp only [bind, Except.bind]
    rw [List.map_nil, writeItems, List.nil_append, hbracket]
    rfl
  | cons s' ss ih =>
    rw [List.length_cons] at hfuel
    obtain ⟨n, rfl⟩ : ∃ m, n = m + 1 := ⟨n - 1, by omega⟩
    have hnext : skipBlank (newLine indent ++ writeString s' ++ writeItems indent (ss.map .string) ++
        (newLine outer ++ ']' :: rest)) =
          writeString s' ++ (writeItems indent (ss.map .string) ++ (newLine outer ++ ']' :: rest)) := by
      rw [List.append_assoc, List.append_assoc, skipBlank_newLine, skipBlank_writeString]
    have hitems := ih hnext n (by omega)
    rw [List.map_cons, writeItems, write, List.cons_append] at h
    have hcomma (cs : List Char) : skipBlank (',' :: cs) = ',' :: cs := rfl
    rw [readItems, readValue_string h]
    simp only [bind, Except.bind]
    rw [hcomma]
    simp only [hitems]
    rfl

private theorem length_le_writeItems (indent : Nat) (items : List Json) :
    items.length ≤ (writeItems indent items).length := by
  induction items with
  | nil => exact Nat.zero_le _
  | cons item items ih =>
    rw [writeItems, List.length_cons, List.length_cons, List.length_append]
    omega

/-- A value that is an array of strings. -/
private theorem readValue_strings {depth outer : Nat} (hdepth : depth ≠ 0) (ss : List String) (rest : List Char)
    {fuel : Nat} (hfuel : ss.length + 2 ≤ fuel) :
    readValue (fuel + 1) depth (write outer (array (ss.map .string)) ++ rest) = .ok (array (ss.map .string), rest) := by
  have hbracket (cs : List Char) : skipBlank ('[' :: cs) = '[' :: cs := rfl
  cases ss with
  | nil =>
    rw [List.map_nil, write, List.cons_append, readValue, hbracket]
    exact if_neg hdepth
  | cons s ss =>
    rw [List.map_cons, write, write, List.cons_append, readValue, hbracket]
    refine (if_neg hdepth).trans ?_
    obtain ⟨items, hitems⟩ : ∃ items, writeItems (outer + 1) (ss.map .string) ++ (newLine outer ++ ']' :: rest) = items :=
      ⟨_, rfl⟩
    have hinside : skipBlank (newLine (outer + 1) ++ writeString s ++ writeItems (outer + 1) (ss.map .string) ++
        newLine outer ++ [']'] ++ rest) = writeString s ++ items := by
      simp only [List.append_assoc]
      rw [skipBlank_newLine, skipBlank_writeString, ← hitems]
      rfl
    obtain ⟨cs, hquote, -⟩ := readString_writeString s items
    have hread : readItems fuel (depth - 1) ('"' :: cs) = .ok ((s :: ss).map .string, rest) := by
      refine readItems_strings (outer + 1) outer (depth - 1) ?_ (Nat.le_trans (by simp) hfuel)
      rw [hitems, hquote]
      rfl
    rw [hinside, hquote]
    show (readItems fuel (depth - 1) ('"' :: cs)).map _ = _
    rw [hread]
    rfl

/-- A list of strings is read as it was written. -/
theorem read_render_strings (ss : List String) :
    read (array (ss.map .string)).render = .ok (array (ss.map .string)) := by
  have hlength : ss.length ≤ (write 0 (array (ss.map .string))).length := by
    cases ss with
    | nil => exact Nat.zero_le _
    | cons s ss =>
      have hitems := length_le_writeItems (0 + 1) (ss.map .string)
      rw [List.length_map] at hitems
      rw [List.map_cons, write]
      simp only [List.length_cons, List.length_append]
      omega
  unfold read render
  rw [String.toList_ofList]
  dsimp only
  rw [readValue_strings (by decide) ss ['\n'] (by simp only [List.length_append, List.length_singleton]; omega)]
  rfl

end CliffordT.Json
