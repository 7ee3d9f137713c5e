import Mathlib.Data.List.Basic
import Rim.Payload.Pem
import Rim.Proofs.Base64
/-!
# Armour is a sequence of blocks

The reader of armour goes through the lines once and keeps what the open block holds so far.  What
it accepts can be told without a reader: the lines are those of blocks, one after the other, and a
block is a begin line, lines that together are base64, and an end line.  An end line cannot stand
within a block, so the first one closes it, and the lines fall apart into blocks in one way only.

A begin line within a block is not excluded by itself, but no base64 has a hyphen.

## Main definitions

* `Pem.Block`: the blocks of a label, and `Pem.Block.lines` for their lines.

## Main results

* `Pem.contentLines_eq`: the lines of a text, whichever way they end.
* `Pem.countLines_eq_ok_iff`: the reader counts the blocks that the lines are made of.
* `Pem.injective_flatMap_lines`: lines are made of blocks in one way.
* `Pem.armour_exact`: both for texts, and for keys, certificates and chains.
-/

namespace Rim

/-! ## The lines of a text

A line may end with a carriage return before its line feed.  That one is blank, so trimming takes
it away in any case. -/

namespace Text

/-- Lines are what stands between line feeds. -/
theorem splitLines_eq (cs : List Char) : splitLines cs = cs.splitOn '\n' := by
  induction cs with
  | nil => simp [splitLines]
  | cons c cs ih =>
    rw [List.splitOn_cons_eq_if_modifyHead]
    by_cases hc : c = '\n'
    · subst hc
      rw [splitLines, ih]
      simp
    · rw [splitLines.eq_3 _ _ hc, ih, if_neg (by simpa using hc)]
      cases hparts : cs.splitOn '\n' with
      | nil => exact absurd hparts (List.splitOn_ne_nil '\n' cs)
      | cons line more => rfl

/-- A carriage return at the end of a line makes no difference once it is trimmed. -/
theorem trim_chomp (line : List Char) : trim (chomp line) = trim line := by
  unfold chomp
  split_ifs with hlast
  · obtain ⟨init, rfl⟩ := List.getLast?_eq_some_iff.1 hlast
    have hreturn : isBlank '\r' = true := rfl
    rw [List.dropLast_concat]
    unfold trim
    rw [List.dropWhile_append]
    split_ifs with hblank
    · rw [List.isEmpty_iff.1 hblank, List.dropWhile_cons_of_pos hreturn]
      rfl
    · rw [List.reverse_append, List.reverse_singleton, List.singleton_append,
        List.dropWhile_cons_of_pos hreturn]
  · rfl

end Text

namespace Pem

/-- The lines with content, whichever the line ends are.  A last line without characters is blank,
so it does not matter that it is no line at all. -/
theorem contentLines_eq (text : String) :
    contentLines text =
      ((text.toList.splitOn '\n').map Text.trim).filter fun line => !line.isEmpty := by
  rw [← Text.splitLines_eq]
  unfold contentLines Text.lines
  have hne : Text.splitLines text.toList ≠ [] := by
    rw [Text.splitLines_eq]
    exact List.splitOn_ne_nil '\n' _
  obtain ⟨init, last, hparts⟩ : ∃ init last, Text.splitLines text.toList = init ++ [last] :=
    ⟨_, _, (List.dropLast_append_getLast hne).symm⟩
  rw [hparts]
  have htrim : (init.map Text.chomp).map Text.trim = init.map Text.trim := by
    rw [List.map_map]
    exact List.map_congr_left fun line _ => Text.trim_chomp line
  simp only [List.dropLast_concat, List.getLastD_concat, List.map_append, htrim]
  cases last with
  | nil => simp [Text.trim]
  | cons c last => rfl

theorem ne_nil_of_mem_contentLines {text : String} {line : List Char}
    (h : line ∈ contentLines text) : line ≠ [] := by
  have hline := (List.mem_filter.1 h).2
  intro hnil
  simp [hnil] at hline

/-! ## Blocks -/

/-- A block of a label, told by what stands between its begin line and its end line: one or more
lines, none of them the end line, that together are the base64 of some bytes. -/
@[ext] structure Block (label : String) where
  body : List (List Char)
  nonempty : body ≠ []
  inner : (endLine label).toList ∉ body
  canonical : ∃ bytes, body.flatten = Base64.encodeChars bytes

variable {label : String}

/-- The lines of a block, with those that open and close it. -/
def Block.lines (b : Block label) : List (List Char) :=
  (beginLine label).toList :: (b.body ++ [(endLine label).toList])

theorem flatMap_lines_cons (b : Block label) (blocks : List (Block label)) :
    (b :: blocks).flatMap Block.lines =
      (beginLine label).toList ::
        (b.body ++ (endLine label).toList :: blocks.flatMap Block.lines) := by
  simp [Block.lines]

/-- What stands before the first of two equal separators is the same. -/
theorem append_cons_inj {α : Type} {x : α} {as bs as' bs' : List α} (ha : x ∉ as) (hb : x ∉ bs)
    (h : as ++ x :: as' = bs ++ x :: bs') : as = bs ∧ as' = bs' := by
  induction as generalizing bs with
  | nil =>
    cases bs with
    | nil => exact ⟨rfl, (List.cons.inj h).2⟩
    | cons b bs =>
      obtain ⟨rfl, -⟩ := List.cons.inj h
      exact absurd List.mem_cons_self hb
  | cons a as ih =>
    cases bs with
    | nil =>
      obtain ⟨rfl, -⟩ := List.cons.inj h
      exact absurd List.mem_cons_self ha
    | cons b bs =>
      obtain ⟨rfl, hrest⟩ := List.cons.inj h
      obtain ⟨rfl, rfl⟩ :=
        ih (List.not_mem_of_not_mem_cons ha) (List.not_mem_of_not_mem_cons hb) hrest
      exact ⟨rfl, rfl⟩

/-- Lines fall apart into blocks in one way.  Both blocks end at the first end line. -/
theorem injective_flatMap_lines :
    Function.Injective fun blocks : List (Block label) => blocks.flatMap Block.lines := by
  intro blocks
  induction blocks with
  | nil =>
    rintro (_ | ⟨c, cs⟩) h
    · rfl
    · simp [Block.lines] at h
  | cons b blocks ih =>
    rintro (_ | ⟨c, cs⟩) h
    · simp [Block.lines] at h
    · dsimp only at h
      rw [flatMap_lines_cons, flatMap_lines_cons] at h
      obtain ⟨hbody, hrest⟩ := append_cons_inj b.inner c.inner (List.cons.inj h).2
      rw [Block.ext hbody, ih hrest]

/-! ## The reader

An open block is read up to the first end line; after it the reader is back where it began, with one
block more. -/

/-- What the reader does within a block that holds `taken` so far. -/
theorem countLines_open_eq_ok_iff {taken : List Char} {lines : List (List Char)} {n : Nat} :
    countLines label (some taken) lines = .ok n ↔
      ∃ body rest m, lines = body ++ (endLine label).toList :: rest ∧
        (endLine label).toList ∉ body ∧ taken ++ body.flatten ≠ [] ∧
        (∃ bytes, taken ++ body.flatten = Base64.encodeChars bytes) ∧
        countLines label none rest = .ok m ∧ n = m + 1 := by
  induction lines generalizing taken with
  | nil => simp [countLines]
  | cons line lines ih =>
    rw [countLines]
    by_cases hend : line = (endLine label).toList
    · rw [if_pos hend]
      constructor
      · intro h
        split_ifs at h with hempty hbad
        obtain ⟨m, hm, rfl⟩ : ∃ m, countLines label none lines = .ok m ∧ m + 1 = n := by
          cases hrest : countLines label none lines with
          | error e => rw [hrest] at h; cases h
          | ok m => rw [hrest] at h; exact ⟨m, rfl, Except.ok.inj h⟩
        refine ⟨[], lines, m, by rw [hend]; rfl, List.not_mem_nil, ?_, ?_, hm, rfl⟩
        · simpa using hempty
        · obtain ⟨bytes, hbytes⟩ := Option.ne_none_iff_exists'.1 (by simpa using hbad)
          exact ⟨bytes, by simpa using Base64.decodeChars?_eq_some_iff.1 hbytes⟩
      · rintro ⟨body, rest, m, hlines, hinner, hne, ⟨bytes, hbytes⟩, hm, rfl⟩
        cases body with
        | cons first body =>
          obtain ⟨rfl, -⟩ := List.cons.inj hlines
          rw [hend] at hinner
          exact absurd List.mem_cons_self hinner
        | nil =>
          obtain ⟨-, rfl⟩ := List.cons.inj hlines
          rw [List.flatten_nil, List.append_nil] at hne hbytes
          rw [if_neg (by simpa using hne), Base64.decodeChars?_eq_some_iff.2 hbytes, hm]
          rfl
    · rw [if_neg hend, ih]
      constructor
      · rintro ⟨body, rest, m, rfl, hinner, hne, hbytes, hm, hn⟩
        refine ⟨line :: body, rest, m, rfl, ?_, ?_, ?_, hm, hn⟩
        · exact List.not_mem_cons_of_ne_of_not_mem (Ne.symm hend) hinner
        · simpa using hne
        · simpa using hbytes
      · rintro ⟨body, rest, m, hlines, hinner, hne, hbytes, hm, hn⟩
        cases body with
        | nil => exact absurd (List.cons.inj hlines).1 hend
        | cons first body =>
          obtain ⟨rfl, rfl⟩ := List.cons.inj hlines
          refine ⟨body, rest, m, rfl, List.not_mem_of_not_mem_cons hinner, ?_, ?_, hm, hn⟩
          · simpa using hne
          · simpa using hbytes

/-- Lines that are not blank are read exactly if they are those of blocks, which are counted.  By
induction on the number of blocks: the first one is read, and fewer are left. -/
theorem countLines_eq_ok_iff {lines : List (List Char)} (hlines : ∀ line ∈ lines, line ≠ [])
    {n : Nat} : countLines label none lines = .ok n ↔
      ∃ blocks : List (Block label), blocks.length = n ∧ lines = blocks.flatMap Block.lines := by
  constructor
  · intro h
    induction n using Nat.strongRecOn generalizing lines with
    | _ n ih =>
    cases lines with
    | nil =>
      obtain rfl := Except.ok.inj h
      exact ⟨[], rfl, rfl⟩
    | cons line lines =>
      rw [countLines] at h
      split_ifs at h with hbegin
      obtain ⟨body, rest, m, rfl, hinner, hne, hbytes, hm, rfl⟩ := countLines_open_eq_ok_iff.1 h
      rw [List.nil_append] at hne hbytes
      have hrest : ∀ line ∈ rest, line ≠ [] := fun line hline => hlines line (by simp [hline])
      obtain ⟨blocks, rfl, rfl⟩ := ih m (Nat.lt_succ_self m) hrest hm
      let first : Block label := ⟨body, fun hnil => hne (by rw [hnil]; rfl), hinner, hbytes⟩
      refine ⟨first :: blocks, rfl, ?_⟩
      rw [flatMap_lines_cons, hbegin]
  · rintro ⟨blocks, rfl, rfl⟩
    induction blocks with
    | nil => rfl
    | cons b blocks ih =>
      rw [flatMap_lines_cons] at hlines ⊢
      have hrest : countLines label none (blocks.flatMap Block.lines) = .ok blocks.length :=
        ih fun line hline => hlines line (by simp [hline])
      have hbody : b.body.flatten ≠ [] := by
        obtain ⟨line, hline⟩ := List.exists_mem_of_ne_nil _ b.nonempty
        have hchar := hlines line (by simp [hline])
        exact fun hnil => hchar (List.flatten_eq_nil_iff.1 hnil line hline)
      rw [countLines, if_pos rfl, List.length_cons]
      apply countLines_open_eq_ok_iff.2
      exact ⟨b.body, _, blocks.length, rfl, b.inner, hbody, b.canonical, hrest, rfl⟩

/-! ## Texts -/

/-- A text has some number of blocks exactly if its lines are those of as many blocks, at least one.
-/
theorem countBlocks_eq_ok_iff {text : String} {n : Nat} :
    countBlocks label text = .ok n ↔ 0 < n ∧ ∃ blocks : List (Block label),
      blocks.length = n ∧ contentLines text = blocks.flatMap Block.lines := by
  have hlines : countLines label none (contentLines text) = .ok n ↔ _ :=
    countLines_eq_ok_iff fun line => ne_nil_of_mem_contentLines
  rw [← hlines, countBlocks]
  split
  case h_1 hzero =>
    rw [hzero]
    simp only [reduceCtorEq, Except.ok.injEq, false_iff, not_and]
    omega
  case h_2 hsome =>
    refine ⟨fun h => ⟨?_, h⟩, fun h => h.2⟩
    apply Nat.pos_of_ne_zero
    rintro rfl
    exact hsome h

theorem refuse_eq_ok_iff {typeName : String} {reason? : Option String} :
    refuse typeName reason? = .ok () ↔ reason? = none := by
  cases reason? <;> simp [refuse]

/-- A text of one block has the content lines of a block. -/
theorem oneBlockFault?_eq_none_iff {text : String} :
    oneBlockFault? label text = none ↔ ∃ b : Block label, contentLines text = b.lines := by
  have hone : oneBlockFault? label text = none ↔ countBlocks label text = .ok 1 := by
    unfold oneBlockFault?
    cases hcount : countBlocks label text with
    | error e => simp
    | ok n =>
      have hpos := (countBlocks_eq_ok_iff.1 hcount).1
      simp only [ite_eq_left_iff, reduceCtorEq, imp_false, Except.ok.injEq]
      omega
  rw [hone, countBlocks_eq_ok_iff]
  constructor
  · rintro ⟨-, blocks, hlength, hlines⟩
    obtain ⟨b, rfl⟩ := List.length_eq_one_iff.1 hlength
    exact ⟨b, by simpa using hlines⟩
  · rintro ⟨b, hlines⟩
    exact ⟨Nat.one_pos, [b], rfl, by simpa using hlines⟩

/-- A text of blocks has the content lines of some blocks. -/
theorem blocksFault?_eq_none_iff {text : String} :
    blocksFault? label text = none ↔ ∃ blocks : List (Block label),
      blocks ≠ [] ∧ contentLines text = blocks.flatMap Block.lines := by
  have hsome : blocksFault? label text = none ↔ ∃ n, countBlocks label text = .ok n := by
    unfold blocksFault?
    cases countBlocks label text <;> simp
  simp only [hsome, countBlocks_eq_ok_iff]
  constructor
  · rintro ⟨n, hpos, blocks, rfl, hlines⟩
    exact ⟨blocks, List.ne_nil_of_length_pos hpos, hlines⟩
  · rintro ⟨blocks, hne, hlines⟩
    exact ⟨_, List.length_pos_iff.2 hne, blocks, rfl, hlines⟩

/-- The lines of a text are those between its line feeds, trimmed and without the blank ones.  They
are counted as `n` blocks of a label exactly if they are the lines of `n` blocks, at least one, with
nothing else before, between or after them, and they are so in one way.  Hence a key and a
certificate are valid exactly if their text is one block of their label, and a chain exactly if it
is one or more. -/
theorem armour_exact :
    (∀ text, contentLines text =
      ((text.toList.splitOn '\n').map Text.trim).filter fun line => !line.isEmpty) ∧
    (∀ label text n, countBlocks label text = .ok n ↔ 0 < n ∧ ∃ blocks : List (Block label),
      blocks.length = n ∧ contentLines text = blocks.flatMap Block.lines) ∧
    (∀ label, Function.Injective fun blocks : List (Block label) => blocks.flatMap Block.lines) ∧
    (∀ text, PkixKey.payload.check ⟨text⟩ = .ok () ↔
      ∃ b : Block "PUBLIC KEY", contentLines text = b.lines) ∧
    (∀ text, PkixCert.payload.check ⟨text⟩ = .ok () ↔
      ∃ b : Block "CERTIFICATE", contentLines text = b.lines) ∧
    ∀ text, PkixCertPath.payload.check ⟨text⟩ = .ok () ↔
      ∃ blocks : List (Block "CERTIFICATE"), blocks ≠ [] ∧
        contentLines text = blocks.flatMap Block.lines := by
  refine ⟨contentLines_eq, fun _ _ _ => countBlocks_eq_ok_iff, fun _ => injective_flatMap_lines,
    fun text => ?_, fun text => ?_, fun text => ?_⟩
  · exact refuse_eq_ok_iff.trans oneBlockFault?_eq_none_iff
  · exact refuse_eq_ok_iff.trans oneBlockFault?_eq_none_iff
  · exact refuse_eq_ok_iff.trans blocksFault?_eq_none_iff

end Pem

end Rim
