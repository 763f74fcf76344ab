import TieredQuery.Json.Record
import TieredQuery.Proofs.Json.Unambiguous

/-!
# Values are read back

A value whose numbers are integers and whose keys ascend is read back from its text, whatever
follows it that is not a part of a number, if it is nested no deeper than the reader goes; else the
reader says that it is nested too deep, and nothing else. `Reads` puts the two together, so that
each part of a text needs one lemma: the fault of an item that is nested too deep is that of the
whole.

Arrays and objects are read by loops over items and members that are the same for values and for
typed decoders. Their lemmas are about any reader of an item or of a member.

## Key results

- `number_int`: integers are read back, also the greatest and the least
- `reads_list`: arrays, for any reader of an item
- `reads_members`: objects, for any reader of a member
- `reads`: values
-/

namespace TieredQuery.Json

variable {α β σ : Type}

/-! ## Reading within limits -/

/-- What a reader makes of something that is nested to a depth, if it may go down a number of levels
    itself: it reads it and leaves the rest of the text, or refuses it for its depth. -/
inductive Reads (levels depth : Nat) (a : α) (rest : List Char) :
    Except Fault (α × List Char) → Prop where
  | read (hdepth : depth ≤ levels) : Reads levels depth a rest (.ok (a, rest))
  | refused (hdepth : levels < depth) (unread : Nat) :
    Reads levels depth a rest (.error (.placed .nestedTooDeep unread))

namespace Reads

variable {levels depth : Nat} {a : α} {rest : List Char} {result : Except Fault (α × List Char)}

/-- What is not nested is read at any level. -/
theorem flat (levels : Nat) (a : α) (rest : List Char) : Reads levels 0 a rest (.ok (a, rest)) :=
  .read (Nat.zero_le levels)

/-- What is nested no deeper than the reader goes is read. -/
theorem eq_ok (h : Reads levels depth a rest result) (hdepth : depth ≤ levels) :
    result = .ok (a, rest) := by
  cases h with
  | read => rfl
  | refused hless => omega

/-- What is nested deeper is refused for its depth. -/
theorem exists_error (h : Reads levels depth a rest result) (hdepth : levels < depth) :
    ∃ unread, result = .error (.placed .nestedTooDeep unread) := by
  cases h with
  | read hle => omega
  | refused hless unread => exact ⟨unread, rfl⟩

/-- Making something else of what is read does not change how deep the reader must go. -/
theorem map (h : Reads levels depth a rest result) (f : α → β) :
    Reads levels depth (f a) rest (result.map fun (a, rest) => (f a, rest)) := by
  cases h with
  | read hle => exact .read hle
  | refused hless unread => exact .refused hless unread

/-- Of two things that are read one after the other, the deeper one counts. -/
theorem bind {depth' : Nat} {b : β} {rest' : List Char}
    {next : α × List Char → Except Fault (β × List Char)}
    (h : Reads levels depth a rest result)
    (hnext : Reads levels depth' b rest' (next (a, rest))) :
    Reads levels (max depth depth') b rest' (result >>= next) := by
  cases h with
  | read hle =>
    -- the second thing is read from where the first one has ended
    show Reads levels (max depth depth') b rest' (next (a, rest))
    generalize next (a, rest) = result' at hnext
    cases hnext with
    | read hle' => exact .read (Nat.max_le.mpr ⟨hle, hle'⟩)
    | refused hless unread =>
      exact .refused (Nat.lt_of_lt_of_le hless (Nat.le_max_right _ _)) unread
  | refused hless unread => exact .refused (Nat.lt_of_lt_of_le hless (Nat.le_max_left _ _)) unread

/-- A container is left when its content has been read. -/
theorem within {after : List Char} {leave : List Char → List Char × Option Fault}
    {content : Reader α} {s : List Char} (h : Reads levels depth a after (content s))
    (hleave : leave after = (rest, none)) :
    Reads levels depth a rest (Json.within leave content s) := by
  unfold Json.within
  generalize content s = result at h
  cases h with
  | read hle =>
    dsimp only
    rw [hleave]
    exact .read hle
  | refused hless unread => exact .refused hless unread

/-- A container nests its content one level deeper. -/
theorem nested {leave : List Char → List Char × Option Fault} {content : Nat → Reader α}
    {s : List Char} (h : ∀ levels, Reads levels depth a rest (Json.within leave (content levels)
      (s.drop 1))) (levels : Nat) :
    Reads levels (depth + 1) a rest (Json.nested leave content levels s) := by
  cases levels with
  | zero =>
    -- it is not even entered
    exact .refused (Nat.succ_pos depth) _
  | succ levels =>
    show Reads (levels + 1) (depth + 1) a rest (Json.within leave (content levels) (s.drop 1))
    have hcontent := h levels
    generalize Json.within leave (content levels) (s.drop 1) = result at hcontent
    cases hcontent with
    | read hle => exact .read (Nat.succ_le_succ hle)
    | refused hless unread => exact .refused (Nat.succ_lt_succ hless) unread

end Reads

/-! ## Numbers -/

namespace Numeral

/-- More digits make a number no smaller. -/
theorem le_ofDigitChars (digits : List Char) (n : Nat) : n ≤ Nat.ofDigitChars 10 digits n := by
  induction digits generalizing n with
  | nil => exact Nat.le_refl n
  | cons c digits ih =>
    rw [Nat.ofDigitChars_cons]
    have hle := ih (10 * n + (c.toNat - '0'.toNat))
    omega

/-- Steps that take every digit that fits take all digits of a number that fits. -/
theorem foldl_of_le {step : Nat × Nat → Char → Nat × Nat}
    (hstep : ∀ n c, n * 10 + digitValue c ≤ greatestWord →
      step (n, 0) c = (n * 10 + digitValue c, 0))
    {digits : List Char} {n : Nat} (h : Nat.ofDigitChars 10 digits n ≤ greatestWord) :
    digits.foldl step (n, 0) = (Nat.ofDigitChars 10 digits n, 0) := by
  induction digits generalizing n with
  | nil => rfl
  | cons c digits ih =>
    have hlonger : 10 * n + (c.toNat - '0'.toNat) = n * 10 + digitValue c := by
      rw [digitValue, Nat.mul_comm]
    rw [Nat.ofDigitChars_cons, hlonger] at h ⊢
    -- what has been read so far is not greater than the whole
    have hfits := Nat.le_trans (le_ofDigitChars digits _) h
    rw [List.foldl_cons, hstep n c hfits]
    exact ih h

/-- Digits of a number that fits into a word are all taken. -/
theorem wholeValue_of_le {digits : List Char} (h : Nat.ofDigitChars 10 digits 0 ≤ greatestWord) :
    wholeValue digits = (Nat.ofDigitChars 10 digits 0, 0) :=
  foldl_of_le (fun _ _ hfits => if_pos ⟨rfl, hfits⟩) h

/-- A significand and a sign make up the integer again. Zero has no sign. -/
theorem integer_eq {i : Integer} {negative : Bool} {significand : Nat}
    (hval : i.val = if negative then -(significand : Int) else significand)
    (hzero : negative = true → significand ≠ 0) : integer negative significand = .int i := by
  unfold integer
  rw [if_neg fun h => hzero h.1 h.2, ← hval, Integer.ofInt?_val]

/-- The numeral that is written for an integer. -/
def ofInteger (i : Integer) : Numeral :=
  ⟨decide (i.val < 0), Nat.toDigits 10 i.val.natAbs, none, none⟩

/-- The text of an integer is that of its numeral. -/
theorem text_ofInteger (i : Integer) : (ofInteger i).text = i.chars := by
  unfold ofInteger Integer.chars
  cases i.val with
  | ofNat k => simp [text, unsigned, fractionText, exponentText]
  | negSucc k => simp [text, unsigned, fractionText, exponentText, Int.negSucc_lt_zero]

/-- The numeral of an integer is worth the integer, also at the limits. -/
theorem value_ofInteger (i : Integer) (rest : List Char) :
    (ofInteger i).value rest = .ok (.int i) := by
  have hlower := i.lower
  have hupper := i.upper
  have hgreatest : greatestWord = 0xFFFFFFFFFFFFFFFF := rfl
  -- its digits fit into a word, so none is dropped
  have hwhole : wholeValue (Nat.toDigits 10 i.val.natAbs) = (i.val.natAbs, 0) := by
    have hfits : Nat.ofDigitChars 10 (Nat.toDigits 10 i.val.natAbs) 0 ≤ greatestWord := by
      rw [ofDigitChars_toDigits]
      omega
    rw [wholeValue_of_le hfits, ofDigitChars_toDigits]
  -- the sign is taken off and put back
  have hinteger : integer (decide (i.val < 0)) i.val.natAbs = .int i := by
    refine integer_eq ?_ fun hneg => ?_
    · by_cases hneg : i.val < 0
      · rw [decide_eq_true hneg, if_pos rfl]
        omega
      · rw [decide_eq_false hneg, if_neg Bool.false_ne_true]
        omega
    · rw [decide_eq_true_eq] at hneg
      omega
  unfold value ofInteger
  dsimp only
  rw [hwhole]
  exact congrArg Except.ok hinteger

end Numeral

/-- An integer is read back. -/
theorem number_int (i : Integer) {rest : List Char} (hrest : Breaks rest) :
    number (i.chars ++ rest) = .ok (.int i, rest) := by
  have hplain : (Numeral.ofInteger i).Plain := plain_toDigits _ _
  unfold number
  rw [← Numeral.text_ofInteger, Numeral.read_text hplain hrest]
  show ((Numeral.ofInteger i).value rest >>= fun value => pure (value, rest)) = _
  rw [Numeral.value_ofInteger]
  rfl

/-! ## Blanks and words -/

/-- No value starts with a blank. -/
theorem skipBlanks_of_kind {c : Char} {kind : Kind} (h : Kind.ofChar c = some kind)
    (s : List Char) : skipBlanks (c :: s) = c :: s := by
  have hvisible : isBlank c = false := by
    by_contra hblank
    -- a blank is of no kind
    simp only [isBlank, Bool.not_eq_false, Bool.or_eq_true, beq_iff_eq] at hblank
    rcases hblank with ((rfl | rfl) | rfl) | rfl <;> cases h
  rw [skipBlanks, List.dropWhile_cons_of_neg (by simp [hvisible])]

/-- A number starts with a minus sign or a digit. -/
theorem minus_or_digit_of_number {c : Char} (h : Kind.ofChar c = some .number) :
    c = '-' ∨ c.isDigit = true := by
  unfold Kind.ofChar at h
  split at h
  case h_7 => exact (Option.ite_none_right_eq_some.mp h).1
  all_goals cases h

/-- Where a text starts like a number, a number is read. -/
theorem valueWith_of_number {c : Char} (h : Kind.ofChar c = some .number)
    (list object : Reader Value) (s : List Char) :
    valueWith list object (c :: s) = number (c :: s) := by
  have hscalar : scalar (c :: s) = number (c :: s) := by
    unfold scalar
    split
    case h_5 heq =>
      cases heq
      rw [if_pos (minus_or_digit_of_number h)]
    all_goals rename_i heq
    all_goals (cases heq; try cases h)
  unfold valueWith
  rw [skipBlanks_of_kind h]
  -- brackets and braces are of other kinds
  split
  case h_3 => exact hscalar
  all_goals (rename_i heq; cases heq; cases h)

/-- A string is read whatever follows it. -/
theorem stringBody_quoted (s : String) (rest : List Char) :
    ∃ body, quoted s ++ rest = '"' :: body ∧ stringBody [] body = .ok (s, rest) := by
  refine ⟨s.toList.flatMap escape ++ '"' :: rest, by simp [quoted], ?_⟩
  rw [stringBody_append, List.reverse_nil, List.nil_append, String.ofList_toList]

/-! ## Items -/

/-- The first item of a list. -/
theorem nextItem_first {c : Char} {kind : Kind} (h : Kind.ofChar c = some kind) (s : List Char) :
    nextItem true (c :: s) = .ok (true, c :: s) := by
  have hbracket : c ≠ ']' := by
    rintro rfl
    cases h
  simp [nextItem, skipBlanks_of_kind h]

/-- An item that is not the first one. -/
theorem nextItem_later {c : Char} {kind : Kind} (h : Kind.ofChar c = some kind) (s : List Char) :
    nextItem false (',' :: c :: s) = .ok (true, c :: s) := by
  have hbracket : c ≠ ']' := by
    rintro rfl
    cases h
  have hcomma : skipBlanks (',' :: c :: s) = ',' :: c :: s := rfl
  simp [nextItem, hcomma, skipBlanks_of_kind h, hbracket]

/-- A turn of the loop reads an item and goes on with the rest. -/
theorem itemsLoop_item {s s' : List Char} {read : List α}
    (h : nextItem read.isEmpty s = .ok (true, s')) (item : Reader α) (fuel : Nat) :
    itemsLoop item (fuel + 1) read s =
      item s' >>= fun (a, rest) => itemsLoop item fuel (a :: read) rest := by
  rw [itemsLoop, h]
  dsimp only
  cases item s' <;> rfl

/-- Whether a reader reads a value back from its text, within limits. -/
def ReadsBack (levels : Nat) (item : Reader α) (v : Value) (a : α) : Prop :=
  ∀ rest, Breaks rest → Reads levels v.depth a rest (item (v.chars ++ rest))

/-- Every item takes at least its comma. -/
theorem length_lt_itemsChars (vs : List Value) : vs.length < (Value.itemsChars vs).length := by
  -- on the items
  induction vs with
  | nil => exact Nat.one_pos
  | cons v vs ih =>
    rw [Value.itemsChars, List.length_cons, List.length_cons, List.length_append]
    omega

section Items

variable {ι : Type} {shape : ι → Value} {meaning : ι → α} {levels : Nat} {item : Reader α}
  {is : List ι}

/-- Once there are items, the others are read after their commas, up to the bracket. -/
theorem reads_itemsLoop (hfinite : ∀ i ∈ is, (shape i).Finite)
    (hitem : ∀ i ∈ is, ReadsBack levels item (shape i) (meaning i)) (rest : List Char) {fuel : Nat}
    (hfuel : is.length < fuel) {read : List α} (hread : read ≠ []) :
    Reads levels (Value.depthItems (is.map shape)) (read.reverse ++ is.map meaning) (']' :: rest)
      (itemsLoop item fuel read (Value.itemsChars (is.map shape) ++ rest)) := by
  -- where items are left, so are turns of the loop
  obtain ⟨fuel, rfl⟩ := Nat.exists_eq_succ_of_ne_zero (Nat.ne_of_gt (Nat.zero_lt_of_lt hfuel))
  -- on the items that are left, each of which uses up one turn of the loop
  induction is generalizing fuel read with
  | nil =>
    rw [List.map_nil, List.map_nil, List.append_nil]
    exact .flat levels _ _
  | cons i is ih =>
    obtain ⟨hi, his⟩ := List.forall_mem_cons.mp hitem
    obtain ⟨hifinite, hisfinite⟩ := List.forall_mem_cons.mp hfinite
    obtain ⟨fuel, rfl⟩ := Nat.exists_eq_succ_of_ne_zero (n := fuel) (by
      rw [List.length_cons] at hfuel
      omega)
    obtain ⟨c, tail, htext, hkind⟩ := Value.exists_head hifinite
    have hnext : nextItem read.isEmpty
        (',' :: ((shape i).chars ++ (Value.itemsChars (is.map shape) ++ rest))) =
        .ok (true, (shape i).chars ++ (Value.itemsChars (is.map shape) ++ rest)) := by
      rw [List.isEmpty_eq_false_iff.mpr hread, htext]
      exact nextItem_later hkind _
    have hrest := ih hisfinite his (List.cons_ne_nil (meaning i) read) fuel
      (Nat.lt_of_succ_lt_succ hfuel)
    rw [List.reverse_cons, List.append_assoc] at hrest
    rw [List.map_cons, Value.itemsChars, List.cons_append, List.append_assoc, itemsLoop_item hnext]
    exact (hi _ (Value.breaks_itemsChars _ rest)).bind hrest

/-- The items of an array are read back, up to its closing bracket. -/
theorem reads_items (hfinite : ∀ i ∈ is, (shape i).Finite)
    (hitem : ∀ i ∈ is, ReadsBack levels item (shape i) (meaning i)) (rest : List Char) :
    Reads levels (Value.depthItems (is.map shape)) (is.map meaning) (']' :: rest)
      (items item (((Value.arr (is.map shape)).chars ++ rest).drop 1)) := by
  -- An array without items ends at once.
  cases is with
  | nil => exact .flat levels [] _
  | cons i is =>
    obtain ⟨hi, his⟩ := List.forall_mem_cons.mp hitem
    obtain ⟨hifinite, hisfinite⟩ := List.forall_mem_cons.mp hfinite
    obtain ⟨c, tail, htext, hkind⟩ := Value.exists_head hifinite
    have hcontent : ((Value.arr ((i :: is).map shape)).chars ++ rest).drop 1 =
        (shape i).chars ++ (Value.itemsChars (is.map shape) ++ rest) := by
      rw [List.map_cons, Value.chars, List.cons_append, List.drop_one, List.tail_cons,
        List.append_assoc]
    have hnext : nextItem ([] : List α).isEmpty
        ((shape i).chars ++ (Value.itemsChars (is.map shape) ++ rest)) =
        .ok (true, (shape i).chars ++ (Value.itemsChars (is.map shape) ++ rest)) := by
      rw [htext]
      exact nextItem_first hkind _
    have hfuel : is.length <
        ((shape i).chars ++ (Value.itemsChars (is.map shape) ++ rest)).length := by
      have hlength := length_lt_itemsChars (is.map shape)
      rw [List.length_map] at hlength
      rw [List.length_append, List.length_append]
      omega
    -- the loop may take as many turns as there are characters, which is enough
    rw [hcontent, items, itemsLoop_item hnext]
    exact (hi _ (Value.breaks_itemsChars _ rest)).bind
      (reads_itemsLoop hisfinite his rest hfuel (List.cons_ne_nil (meaning i) []))

/-- An array is read back as a list, if its items are. -/
theorem reads_list {item : Decoder α} (hfinite : ∀ i ∈ is, (shape i).Finite)
    (h : ∀ levels, ∀ i ∈ is, ReadsBack levels (item levels) (shape i) (meaning i)) (levels : Nat)
    (rest : List Char) :
    Reads levels (Value.arr (is.map shape)).depth (is.map meaning) rest
      (nested leaveList (fun levels => items (item levels)) levels
        ((Value.arr (is.map shape)).chars ++ rest)) := by
  rw [Value.depth]
  refine Reads.nested (fun levels => ?_) levels
  exact (reads_items hfinite (h levels) rest).within rfl

end Items

/-! ## Members -/

/-- Every member takes at least its comma. -/
theorem length_lt_membersChars (ms : List (String × Value)) :
    ms.length < (Value.membersChars ms).length := by
  -- on the members
  induction ms with
  | nil => exact Nat.one_pos
  | cons m ms ih =>
    obtain ⟨k, v⟩ := m
    rw [Value.membersChars]
    simp only [List.length_cons, List.length_append]
    omega

/-- The first key of an object. -/
theorem nextKey_first (key : String) (s : List Char) :
    nextKey true (quoted key ++ s) = .ok (some key, s) := by
  obtain ⟨body, hquoted, hbody⟩ := stringBody_quoted key s
  have hblanks : skipBlanks ('"' :: body) = '"' :: body := rfl
  rw [hquoted]
  simp [nextKey, nextKey.key, hblanks, hbody]

/-- A key that is not the first one. -/
theorem nextKey_later (key : String) (s : List Char) :
    nextKey false (',' :: (quoted key ++ s)) = .ok (some key, s) := by
  obtain ⟨body, hquoted, hbody⟩ := stringBody_quoted key s
  have hcomma : skipBlanks (',' :: '"' :: body) = ',' :: '"' :: body := rfl
  have hblanks : skipBlanks ('"' :: body) = '"' :: body := rfl
  rw [hquoted]
  simp [nextKey, nextKey.key, hcomma, hblanks, hbody]

/-- A turn of the loop reads a member and goes on with the rest. -/
theorem membersLoop_member {s s' : List Char} {first : Bool} {key : String}
    (h : nextKey first s = .ok (some key, s')) (member : String → σ → Reader σ) (fuel : Nat)
    (gathered : σ) :
    membersLoop member (fuel + 1) first gathered s =
      member key gathered s' >>= fun (gathered, rest) =>
        membersLoop member fuel false gathered rest := by
  rw [membersLoop, h]
  dsimp only
  cases member key gathered s' <;> rfl

section Members

variable {ι : Type} {shape : ι → String × Value} {levels : Nat} {member : String → σ → Reader σ}
  {take : σ → ι → σ} {gathered : σ} {ms : List ι}

/-- Whether a reader of a member reads the members by which some things are written, in their
    order, and takes each into what it has gathered from those before it. -/
def ReadsMembers (shape : ι → String × Value) (levels : Nat) (member : String → σ → Reader σ)
    (take : σ → ι → σ) (gathered : σ) (ms : List ι) : Prop :=
  ∀ before m after, ms = before ++ m :: after → ∀ rest, Breaks rest →
    Reads levels (shape m).2.depth (take (before.foldl take gathered) m) rest
      (member (shape m).1 (before.foldl take gathered) (':' :: ((shape m).2.chars ++ rest)))

/-- The first of the members is read, and the others are with it taken into what was gathered. -/
theorem readsMembers_cons {m : ι}
    (h : ReadsMembers shape levels member take gathered (m :: ms)) :
    (∀ rest, Breaks rest → Reads levels (shape m).2.depth (take gathered m) rest
      (member (shape m).1 gathered (':' :: ((shape m).2.chars ++ rest)))) ∧
    ReadsMembers shape levels member take (take gathered m) ms := by
  refine ⟨h [] m ms rfl, ?_⟩
  rintro before m' after rfl
  exact h (m :: before) m' after rfl

/-- The members that follow a comma are read back, up to the closing brace. -/
theorem reads_membersLoop (rest : List Char) {fuel : Nat} (hfuel : ms.length < fuel)
    (h : ReadsMembers shape levels member take gathered ms) :
    Reads levels (Value.depthMembers (ms.map shape)) (ms.foldl take gathered) ('}' :: rest)
      (membersLoop member fuel false gathered (Value.membersChars (ms.map shape) ++ rest)) := by
  obtain ⟨fuel, rfl⟩ := Nat.exists_eq_succ_of_ne_zero (Nat.ne_of_gt (Nat.zero_lt_of_lt hfuel))
  -- on the members that are left; those before them are in what was gathered
  induction ms generalizing fuel gathered with
  | nil => exact .flat levels _ _
  | cons m ms ih =>
    obtain ⟨hm, hms⟩ := readsMembers_cons h
    obtain ⟨fuel, rfl⟩ := Nat.exists_eq_succ_of_ne_zero (n := fuel) (by
      rw [List.length_cons] at hfuel
      omega)
    have hnext := nextKey_later (shape m).1
      (':' :: ((shape m).2.chars ++ (Value.membersChars (ms.map shape) ++ rest)))
    have hchars : Value.membersChars ((m :: ms).map shape) ++ rest = ',' :: (quoted (shape m).1 ++
        ':' :: ((shape m).2.chars ++ (Value.membersChars (ms.map shape) ++ rest))) := by
      rw [List.map_cons, Value.membersChars]
      simp
    rw [hchars, membersLoop_member hnext]
    exact (hm _ (Value.breaks_membersChars _ rest)).bind
      (ih hms fuel (Nat.lt_of_succ_lt_succ hfuel))

/-- The members of an object are read back, up to its closing brace. -/
theorem reads_members (rest : List Char)
    (h : ReadsMembers shape levels member take gathered ms) :
    Reads levels (Value.depthMembers (ms.map shape)) (ms.foldl take gathered) ('}' :: rest)
      (members member gathered (((Value.obj (ms.map shape)).chars ++ rest).drop 1)) := by
  -- An object without members ends at once.
  cases ms with
  | nil => exact .flat levels _ _
  | cons m ms =>
    obtain ⟨hm, hms⟩ := readsMembers_cons h
    have hnext := nextKey_first (shape m).1
      (':' :: ((shape m).2.chars ++ (Value.membersChars (ms.map shape) ++ rest)))
    have hcontent : ((Value.obj ((m :: ms).map shape)).chars ++ rest).drop 1 =
        quoted (shape m).1 ++
          ':' :: ((shape m).2.chars ++ (Value.membersChars (ms.map shape) ++ rest)) := by
      rw [List.map_cons, Value.chars]
      simp
    have hfuel : ms.length < (quoted (shape m).1 ++
        ':' :: ((shape m).2.chars ++ (Value.membersChars (ms.map shape) ++ rest))).length := by
      have hlength := length_lt_membersChars (ms.map shape)
      rw [List.length_map] at hlength
      simp only [List.length_append, List.length_cons]
      omega
    rw [hcontent, members, membersLoop_member hnext]
    exact (hm _ (Value.breaks_membersChars _ rest)).bind (reads_membersLoop rest hfuel hms)

end Members

/-! ## Dictionaries -/

section Dictionaries

variable {ι : Type} {shape : ι → String × Value} {meaning : ι → α} {ms : List ι}

/-- An entry is read after its colon. -/
theorem entry_colon (item : Reader α) (key : String) (d : Dictionary α) (s : List Char) :
    entry item key d (':' :: s) = (item s).map fun (a, rest) => (d.insert key a, rest) := by
  have hcolon : colon (':' :: s) = .ok s := rfl
  unfold entry
  rw [hcolon]
  show (item s >>= fun (a, rest) => pure (d.insert key a, rest)) = _
  cases item s <;> rfl

/-- Members are entered one after the other. -/
theorem readsMembers_entry {levels : Nat} {item : Reader α}
    (h : ∀ m ∈ ms, ReadsBack levels item (shape m).2 (meaning m)) (d : Dictionary α) :
    ReadsMembers shape levels (entry item) (fun d m => d.insert (shape m).1 (meaning m)) d ms := by
  rintro before m after rfl rest hrest
  rw [entry_colon]
  exact (h m (by simp) rest hrest).map _

/-- An object is read back as a dictionary, if its members are. -/
theorem reads_dictionary {item : Decoder α}
    (h : ∀ levels, ∀ m ∈ ms, ReadsBack levels (item levels) (shape m).2 (meaning m)) (levels : Nat)
    (rest : List Char) :
    Reads levels (Value.obj (ms.map shape)).depth
      (ms.foldl (fun d m => d.insert (shape m).1 (meaning m)) .empty) rest
      (nested leaveObject (fun levels => members (entry (item levels)) .empty) levels
        ((Value.obj (ms.map shape)).chars ++ rest)) := by
  rw [Value.depth]
  refine Reads.nested (fun levels => ?_) levels
  exact (reads_members rest (readsMembers_entry (h levels) .empty)).within rfl

end Dictionaries

/-! ## Values -/

namespace Value

/-- The deepest member decides the depth. -/
theorem depthMembers_le_iff {ms : List (String × Value)} {n : Nat} :
    depthMembers ms ≤ n ↔ ∀ m ∈ ms, m.2.depth ≤ n := by
  induction ms with
  | nil => simp [depthMembers]
  | cons m ms ih =>
    rw [depthMembers, Nat.max_le, ih, List.forall_mem_cons]

/-- The text of an object starts with a brace. -/
theorem exists_chars_obj (ms : List (String × Value)) (rest : List Char) :
    ∃ s, (obj ms).chars ++ rest = '{' :: s := by
  cases ms with
  | nil => exact ⟨_, rfl⟩
  | cons m ms => exact ⟨_, by rw [chars, List.cons_append]⟩

/-- The text of an array starts with a bracket. -/
theorem exists_chars_arr (vs : List Value) (rest : List Char) :
    ∃ s, (arr vs).chars ++ rest = '[' :: s := by
  cases vs with
  | nil => exact ⟨_, rfl⟩
  | cons v vs => exact ⟨_, by rw [chars, List.cons_append]⟩

/-- A value that starts with a bracket is an array, read at its own level. -/
theorem value_bracket (levels : Nat) (s : List Char) :
    value levels ('[' :: s) = (nested leaveList (fun levels => items (value levels)) levels
      ('[' :: s)).map fun (vs, rest) => (.arr vs, rest) := by
  cases levels <;> rfl

/-- A value that starts with a brace is an object, read at its own level. -/
theorem value_brace (levels : Nat) (s : List Char) :
    value levels ('{' :: s) =
      (nested leaveObject (fun levels => members (entry (value levels)) .empty) levels
        ('{' :: s)).map fun (d, rest) => (.ofDictionary d, rest) := by
  cases levels <;> rfl

mutual

/-- A value whose numbers are integers has no doubles, so it has no infinite ones. -/
theorem finite_of_integral : (v : Value) → v.Integral → v.Finite
  | .null, _ | .bool _, _ | .int _, _ | .str _, _ => trivial
  | .arr items, h => finiteItems_of_integral items h
  | .obj members, h => finiteMembers_of_integral members h

/-- The same holds of items. -/
theorem finiteItems_of_integral : (vs : List Value) → IntegralItems vs → FiniteItems vs
  | [], _ => trivial
  | v :: vs, h => ⟨finite_of_integral v h.1, finiteItems_of_integral vs h.2⟩

/-- The same holds of members. -/
theorem finiteMembers_of_integral :
    (ms : List (String × Value)) → IntegralMembers ms → FiniteMembers ms
  | [], _ => trivial
  | (_, v) :: ms, h => ⟨finite_of_integral v h.1, finiteMembers_of_integral ms h.2⟩

end

/-- Scalars are read back at any level. -/
theorem readsBack_scalar {v : Value} (hdepth : v.depth = 0) {levels : Nat}
    (h : ∀ rest, Breaks rest → value levels (v.chars ++ rest) = .ok (v, rest)) :
    ReadsBack levels (value levels) v v := by
  intro rest hrest
  rw [h rest hrest, hdepth]
  exact .flat levels v rest

/-- An integer is read back at any level. -/
theorem readsBack_int (i : Integer) (levels : Nat) :
    ReadsBack levels (value levels) (.int i) (.int i) := by
  refine readsBack_scalar rfl fun rest hrest => ?_
  obtain ⟨c, tail, htext, hkind⟩ := exists_head (v := .int i) trivial
  have hnumber := number_int i hrest
  rw [chars] at htext ⊢
  rw [htext, List.cons_append] at hnumber ⊢
  cases levels <;> rw [value, valueWith_of_number hkind, hnumber]

/-- A string is read back at any level. -/
theorem readsBack_str (s : String) (levels : Nat) :
    ReadsBack levels (value levels) (.str s) (.str s) := by
  refine readsBack_scalar rfl fun rest _ => ?_
  obtain ⟨body, hquoted, hbody⟩ := stringBody_quoted s rest
  have hscalar : scalar ('"' :: body) = .ok (.str s, rest) := by rw [scalar, hbody]
  rw [chars, hquoted]
  cases levels <;> exact hscalar

/-- An array is read back, if its items are. -/
theorem readsBack_arr {items : List Value} (hfinite : ∀ v ∈ items, v.Finite)
    (h : ∀ v ∈ items, ∀ levels, ReadsBack levels (value levels) v v) (levels : Nat) :
    ReadsBack levels (value levels) (.arr items) (.arr items) := by
  intro rest _
  obtain ⟨s, hs⟩ := exists_chars_arr items rest
  -- the items stand for themselves
  have hitems : ∀ levels, ∀ v ∈ items, ReadsBack levels (Decoder.any levels) (id v) (id v) :=
    fun levels v hv => h v hv levels
  have hread := (reads_list (show ∀ v ∈ items, (id v).Finite from hfinite) hitems levels rest).map
    arr
  rw [List.map_id] at hread
  rwa [hs, value_bracket, ← hs]

/-- An object whose keys ascend is read back, if its members are. -/
theorem readsBack_obj {members : List (String × Value)} (hascending : Ascending members)
    (h : ∀ m ∈ members, ∀ levels, ReadsBack levels (value levels) m.2 m.2) (levels : Nat) :
    ReadsBack levels (value levels) (.obj members) (.obj members) := by
  intro rest _
  obtain ⟨s, hs⟩ := exists_chars_obj members rest
  have hmembers : ∀ levels, ∀ m ∈ members, ReadsBack levels (Decoder.any levels) (id m).2 m.2 :=
    fun levels m hm => h m hm levels
  have hread := (reads_dictionary hmembers levels rest).map ofDictionary
  -- keys that ascend are entered in the order in which they are kept
  have hentries : ofDictionary (members.foldl (fun d m => d.insert m.1 m.2) .empty) =
      .obj members := congrArg ofDictionary (Dictionary.ofList_entries ⟨members, hascending⟩)
  simp only [List.map_id, id] at hread
  rw [hentries] at hread
  rwa [hs, value_brace, ← hs]

mutual

/-- A value is read back. -/
theorem reads : (v : Value) → v.Canonical → v.Integral → ∀ levels,
    ReadsBack levels (value levels) v v
  | .null, _, _ => fun levels => readsBack_scalar rfl fun rest _ => by cases levels <;> rfl
  | .bool true, _, _ => fun levels => readsBack_scalar rfl fun rest _ => by cases levels <;> rfl
  | .bool false, _, _ => fun levels => readsBack_scalar rfl fun rest _ => by cases levels <;> rfl
  | .int i, _, _ => readsBack_int i
  | .str s, _, _ => readsBack_str s
  | .arr items, hcanonical, hintegral => readsBack_arr
    (finiteItems_iff.mp (finiteItems_of_integral items hintegral))
    (readsItems items hcanonical hintegral)
  | .obj members, hcanonical, hintegral => readsBack_obj hcanonical.1
    (readsMembers members hcanonical.2 hintegral)

/-- The items of an array are read back, each at the level below it. -/
theorem readsItems : (vs : List Value) → CanonicalItems vs → IntegralItems vs →
    ∀ v ∈ vs, ∀ levels, ReadsBack levels (value levels) v v
  | [], _, _ => nofun
  | v :: vs, hcanonical, hintegral => List.forall_mem_cons.mpr
    ⟨reads v hcanonical.1 hintegral.1, readsItems vs hcanonical.2 hintegral.2⟩

/-- The members of an object are read back, each at the level below it. -/
theorem readsMembers : (ms : List (String × Value)) → CanonicalMembers ms → IntegralMembers ms →
    ∀ m ∈ ms, ∀ levels, ReadsBack levels (value levels) m.2 m.2
  | [], _, _ => nofun
  | (_, v) :: ms, hcanonical, hintegral => List.forall_mem_cons.mpr
    ⟨reads v hcanonical.1 hintegral.1, readsMembers ms hcanonical.2 hintegral.2⟩

end

end Value
end TieredQuery.Json
