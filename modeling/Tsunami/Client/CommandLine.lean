import Tsunami.Client.CommandSet
import Tsunami.Lib.Tokens

/-!
# Commands on the command line

The loop of `main` over the arguments of the client, and `parse_command`, which
cuts up the text of a command in place. The text stays in the buffer until the
next command is put there.
-/

namespace Tsunami.Client

open Tokens (joined joined_cons joined_cons_cons)
open Control (text isSpace)

def maxCommandLength : Nat := 1024
def maxCommandWords : Nat := 10

abbrev Command := List (List UInt8)

def wordChar (b : UInt8) : Bool := b ≠ 0 ∧ isSpace b = false

/-- The loop of `parse_command`, with room for `n` words: the words, and the text
cut behind each of them. None if it runs out of the buffer. -/
def parseWords : Nat → List UInt8 → Option (Command × List UInt8)
  | 0, buffer => some ([], buffer)
  | n + 1, buffer =>
    match buffer with
    | [] => none
    | b :: _ =>
      if b = 0 then some ([], buffer)
      else
        let word := buffer.takeWhile wordChar
        let behind := buffer.dropWhile wordChar
        let blanks := behind.takeWhile isSpace
        let rest := behind.dropWhile isSpace
        if rest = [] then none
        else do
          let (words, rest) ← parseWords n rest
          some (word :: words, word ++ List.replicate blanks.length 0 ++ rest)

def parseCommand (buffer : List UInt8) : Option (Command × List UInt8) := do
  let (words, rest) ← parseWords maxCommandWords (buffer.dropWhile isSpace)
  some (words, buffer.takeWhile isSpace ++ rest)

def operandCount (word : List UInt8) : Option Nat :=
  if sameWord word (text "close") || sameWord word (text "quit") || sameWord word (text "exit") ||
      sameWord word (text "bye") || sameWord word (text "help") || sameWord word (text "dir") then
    some 0
  else if sameWord word (text "connect") then some 1
  else if sameWord word (text "get") then some 1
  else if sameWord word (text "set") then some 2
  else none

/-- `command_quit` does not come back. -/
def quits (word : List UInt8) : Bool :=
  sameWord word (text "quit") || sameWord word (text "exit") || sameWord word (text "bye")

inductive Assembled
  | command (words : Command) (args : List (List UInt8))
  | exit
  | nothing
  deriving DecidableEq, Repr

def assemble : List (List UInt8) → Assembled
  | [] => .nothing
  | word :: args =>
    match operandCount word with
    | some 0 => .command [word] args
    | some 1 =>
      match args with
      | first :: args => .command [word, first] args
      | _ => .exit
    | some _ =>
      match args with
      | first :: second :: args => .command [word, first, second] args
      | _ => .exit
    | none => assemble args

/-- `strcpy` and the calls of `strcat` into `command_text`, none if the buffer is
too small. -/
def copyWords (buffer : List UInt8) (words : Command) : Option (List UInt8) :=
  let commandText := joined 32 words
  if commandText.length < maxCommandLength then
    some (commandText ++ 0 :: buffer.drop (commandText.length + 1))
  else none

/-- What has been dispatched so far, the buffer, and whether the process goes on.
`returns` tells whether the last of the commands so far comes back. -/
def dispatch (returns : List Command → Bool) (done : List Command) (buffer : List UInt8) :
    Option (List Command × List UInt8 × Bool) := do
  let (words, buffer) ← parseCommand buffer
  match words with
  | [] => some (done, buffer, true)
  | word :: _ =>
    if (operandCount word).isSome then
      let done := done ++ [words]
      some (done, buffer, !quits word && returns done)
    else some (done, buffer, true)

def turn (returns : List Command → Bool)
    (next : List Command → List UInt8 → List (List UInt8) → Option (List Command))
    (done : List Command) (buffer : List UInt8) : Assembled → Option (List Command)
  | .exit => some done
  | .nothing => do
    let (done, _, _) ← dispatch returns done buffer
    some done
  | .command words args => do
    let buffer ← copyWords buffer words
    let (done, buffer, running) ← dispatch returns done buffer
    if running then next done buffer args else some done

def mainLoop (returns : List Command → Bool) :
    Nat → List Command → List UInt8 → List (List UInt8) → Option (List Command)
  | 0, done, _, _ => some done
  | n + 1, done, buffer, args =>
    if args = [] then some done
    else turn returns (mainLoop returns n) done buffer (assemble args)

/-- `main`, with what happens to be in `command_text`. Each turn takes at least
one argument. -/
def dispatched (returns : List Command → Bool) (commandText : List UInt8)
    (args : List (List UInt8)) : Option (List Command) :=
  mainLoop returns args.length [] commandText args

-- ---------------------------------------------------------------------------
-- What the arguments spell
-- ---------------------------------------------------------------------------

inductive Item
  | command (words : Command)
  | unknown (word : List UInt8)
  deriving DecidableEq, Repr

/-- The arguments read from left to right, none where operands are missing. -/
def readArgs : List (List UInt8) → Option (List Item)
  | [] => some []
  | word :: args =>
    match operandCount word, args with
    | none, args => (readArgs args).map (.unknown word :: ·)
    | some 0, args => (readArgs args).map (.command [word] :: ·)
    | some 1, first :: args => (readArgs args).map (.command [word, first] :: ·)
    | some 2, first :: second :: args =>
      (readArgs args).map (.command [word, first, second] :: ·)
    | _, _ => none

def Item.commands : List Item → List Command
  | [] => []
  | .command words :: items => words :: commands items
  | .unknown _ :: items => commands items

def goesOn (returns : List Command → Bool) (done : List Command) (words : Command) : Bool :=
  !words.head?.any quits && returns (done ++ [words])

def executed (returns : List Command → Bool) : List Command → List Command → List Command
  | done, [] => done
  | done, words :: commands =>
    if goesOn returns done words then executed returns (done ++ [words]) commands
    else done ++ [words]

def IsWord (w : List UInt8) : Prop := w ≠ [] ∧ ∀ b ∈ w, wordChar b

instance (w : List UInt8) : Decidable (IsWord w) := inferInstanceAs (Decidable (_ ∧ _))

/-- A buffer that begins with a text, but with no command. -/
def Commandless (buffer : List UInt8) : Bool :=
  match parseCommand buffer with
  | none => false
  | some (words, _) => words.head?.all fun word => (operandCount word).isNone

/-- Up to where the process ends, each operand is a word, and no unknown words
come last: unless there is no command at all, and the buffer was `quiet`. -/
def Faultless (returns : List Command → Bool) :
    List Command → (quiet skipping : Bool) → List Item → Prop
  | _, quiet, skipping, [] => skipping → quiet
  | done, quiet, _, .unknown _ :: items => Faultless returns done quiet true items
  | done, _, _, .command words :: items =>
    (∀ operand ∈ words.tail, IsWord operand) ∧
      (goesOn returns done words → Faultless returns (done ++ [words]) false false items)

instance decidableFaultless (returns : List Command → Bool) :
    (done : List Command) → (quiet skipping : Bool) → (items : List Item) →
      Decidable (Faultless returns done quiet skipping items)
  | _, _, _, [] => inferInstanceAs (Decidable (_ → _))
  | done, quiet, _, .unknown _ :: items => decidableFaultless returns done quiet true items
  | done, _, _, .command words :: items =>
    have := decidableFaultless returns (done ++ [words]) false false items
    inferInstanceAs (Decidable (_ ∧ _))

-- ---------------------------------------------------------------------------
-- Words
-- ---------------------------------------------------------------------------

variable {returns : List Command → Bool} {done : List Command} {words : Command}
  {buffer : List UInt8} {items : List Item} {args : List (List UInt8)}

theorem wordChar_toupper (b : UInt8) : wordChar (toupper b) = wordChar b := by
  have hall : ∀ n < 256, wordChar (toupper (.ofNat n)) = wordChar (.ofNat n) := by decide +kernel
  have hb := hall b.toNat b.toNat_lt
  rwa [UInt8.ofNat_toNat] at hb

theorem isWord_of_sameWord (h : sameWord w name = true) (hname : IsWord name) : IsWord w := by
  have hmap : w.map toupper = name.map toupper := of_decide_eq_true h
  refine ⟨?_, fun b hb => ?_⟩
  · rintro rfl
    exact hname.1 (List.map_eq_nil_iff.mp hmap.symm)
  · have hmem : toupper b ∈ name.map toupper := hmap ▸ List.mem_map_of_mem hb
    obtain ⟨c, hc, heq⟩ := List.mem_map.mp hmem
    rw [← wordChar_toupper, ← heq, wordChar_toupper]
    exact hname.2 c hc

theorem isWord_of_operandCount (h : (operandCount w).isSome) : IsWord w := by
  have hwords : ∀ name ∈ [text "close", text "quit", text "exit", text "bye", text "help",
      text "dir", text "connect", text "get", text "set"], IsWord name := by decide +kernel
  obtain ⟨name, hname, hsame⟩ : ∃ name ∈ [text "close", text "quit", text "exit", text "bye",
      text "help", text "dir", text "connect", text "get", text "set"], sameWord w name := by
    by_contra hnone
    simp only [List.mem_cons, List.not_mem_nil, or_false, exists_eq_or_imp, exists_eq_left,
      not_or, Bool.not_eq_true] at hnone
    simp [operandCount, hnone] at h
  exact isWord_of_sameWord hsame (hwords name hname)

theorem not_space_of_wordChar (h : wordChar b = true) : isSpace b = false :=
  (of_decide_eq_true h).2

theorem takeWhile_word (hw : IsWord w) (hstop : wordChar b = false) (rest : List UInt8) :
    (w ++ b :: rest).takeWhile wordChar = w := by
  rw [List.takeWhile_append_of_pos hw.2, List.takeWhile_cons_of_neg (by rw [hstop]; decide),
    List.append_nil]

theorem dropWhile_word (hw : IsWord w) (hstop : wordChar b = false) (rest : List UInt8) :
    (w ++ b :: rest).dropWhile wordChar = b :: rest := by
  rw [List.dropWhile_append_of_pos hw.2, List.dropWhile_cons_of_neg (by rw [hstop]; decide)]

theorem dropWhile_space_word (hw : IsWord w) (rest : List UInt8) :
    (w ++ rest).dropWhile isSpace = w ++ rest := by
  obtain ⟨b, w, rfl⟩ := List.exists_cons_of_ne_nil hw.1
  have hb := not_space_of_wordChar (hw.2 b List.mem_cons_self)
  exact List.dropWhile_cons_of_neg (by rw [hb]; decide)

theorem takeWhile_space_word (hw : IsWord w) (rest : List UInt8) :
    (w ++ rest).takeWhile isSpace = [] := by
  obtain ⟨b, w, rfl⟩ := List.exists_cons_of_ne_nil hw.1
  have hb := not_space_of_wordChar (hw.2 b List.mem_cons_self)
  exact List.takeWhile_cons_of_neg (by rw [hb]; decide)

-- ---------------------------------------------------------------------------
-- Cutting up the text
-- ---------------------------------------------------------------------------

theorem parseWords_word (hw : IsWord w) (hstop : wordChar b = false) (n : Nat)
    (rest : List UInt8) :
    parseWords (n + 1) (w ++ b :: rest) =
      if (b :: rest).dropWhile isSpace = [] then none
      else (parseWords n ((b :: rest).dropWhile isSpace)).map fun parsed => (w :: parsed.1,
        w ++ List.replicate ((b :: rest).takeWhile isSpace).length 0 ++ parsed.2) := by
  have htake := takeWhile_word hw hstop rest
  have hdrop := dropWhile_word hw hstop rest
  obtain ⟨c, w, rfl⟩ := List.exists_cons_of_ne_nil hw.1
  have hc : c ≠ 0 := (of_decide_eq_true (hw.2 c List.mem_cons_self)).1
  rw [List.cons_append] at *
  rw [parseWords]
  simp only [if_neg hc, htake, hdrop]
  cases parseWords n ((b :: rest).dropWhile isSpace) <;> rfl

theorem parseWords_joined (hne : words ≠ []) (hwords : ∀ w ∈ words, IsWord w)
    (hlen : words.length ≤ n) (rest : List UInt8) :
    parseWords n (joined 32 words ++ 0 :: rest) = some (words, joined 0 words ++ 0 :: rest) := by
  induction words generalizing n with
  | nil => exact absurd rfl hne
  | cons w words ih =>
    obtain ⟨hw, hlater⟩ := List.forall_mem_cons.mp hwords
    obtain ⟨n, rfl⟩ : ∃ m, n = m + 1 := ⟨n - 1, by rw [List.length_cons] at hlen; omega⟩
    cases words with
    | nil =>
      have hend : (0 :: rest).dropWhile isSpace = 0 :: rest := rfl
      rw [joined, joined, parseWords_word hw rfl n rest, hend, if_neg (List.cons_ne_nil _ _)]
      cases n <;> simp [parseWords, isSpace]
    | cons next words =>
      obtain ⟨tail, htail⟩ := joined_cons 32 next words
      have hskip : (32 :: (joined 32 (next :: words) ++ 0 :: rest)).dropWhile isSpace =
          joined 32 (next :: words) ++ 0 :: rest := by
        rw [List.dropWhile_cons_of_pos rfl, htail, List.append_assoc]
        exact dropWhile_space_word (hlater next List.mem_cons_self) _
      have hblank : (32 :: (joined 32 (next :: words) ++ 0 :: rest)).takeWhile isSpace = [32] := by
        rw [List.takeWhile_cons_of_pos rfl, htail, List.append_assoc,
          takeWhile_space_word (hlater next List.mem_cons_self)]
      have hparsed := ih (n := n) (List.cons_ne_nil _ _) hlater (Nat.le_of_succ_le_succ hlen)
      rw [joined_cons_cons, List.append_assoc, List.cons_append, parseWords_word hw rfl n, hskip,
        if_neg (by simp), hblank, hparsed]
      simp [joined]

theorem parseCommand_joined (hne : words ≠ []) (hwords : ∀ w ∈ words, IsWord w)
    (hlen : words.length ≤ maxCommandWords) (rest : List UInt8) :
    parseCommand (joined 32 words ++ 0 :: rest) = some (words, joined 0 words ++ 0 :: rest) := by
  obtain ⟨w, later, rfl⟩ := List.exists_cons_of_ne_nil hne
  obtain ⟨tail, htail⟩ := joined_cons 32 w later
  have hw := hwords w List.mem_cons_self
  have hskip : (joined 32 (w :: later) ++ 0 :: rest).dropWhile isSpace =
      joined 32 (w :: later) ++ 0 :: rest := by
    rw [htail, List.append_assoc]
    exact dropWhile_space_word hw _
  have hblank : (joined 32 (w :: later) ++ 0 :: rest).takeWhile isSpace = [] := by
    rw [htail, List.append_assoc]
    exact takeWhile_space_word hw _
  rw [parseCommand, hskip, hblank, parseWords_joined hne hwords hlen]
  rfl

theorem head_dropWhile_space (buffer : List UInt8) :
    ∀ b ∈ (buffer.dropWhile isSpace).head?, isSpace b = false := by
  intro b hb
  have hhead := List.head?_dropWhile_not isSpace buffer
  rwa [Option.mem_def.mp hb] at hhead

theorem isWord_of_parseWords (h : parseWords n buffer = some (words, rest))
    (hstart : ∀ b ∈ buffer.head?, isSpace b = false) : ∀ w ∈ words, IsWord w := by
  induction n generalizing buffer words rest with
  | zero =>
    obtain ⟨rfl, -⟩ := Prod.mk.inj (Option.some.inj h)
    exact fun w hw => absurd hw List.not_mem_nil
  | succ n ih =>
    cases buffer with
    | nil => cases h
    | cons b buffer =>
      simp only [parseWords] at h
      split at h
      · obtain ⟨rfl, -⟩ := Prod.mk.inj (Option.some.inj h)
        exact fun w hw => absurd hw List.not_mem_nil
      · rename_i hb
        split at h
        · cases h
        · obtain ⟨⟨later, tail⟩, hlater, h⟩ := Option.bind_eq_some_iff.mp h
          obtain ⟨rfl, -⟩ := Prod.mk.inj (Option.some.inj h)
          have hchar : wordChar b = true := decide_eq_true ⟨hb, hstart b rfl⟩
          have hne : (b :: buffer).takeWhile wordChar ≠ [] := by
            rw [List.takeWhile_cons_of_pos hchar]
            exact List.cons_ne_nil _ _
          exact List.forall_mem_cons.mpr ⟨⟨hne, fun c hc => List.mem_takeWhile_imp hc⟩,
            ih hlater (head_dropWhile_space _)⟩

theorem isWord_of_parseCommand (h : parseCommand buffer = some (words, rest)) :
    ∀ w ∈ words, IsWord w := by
  obtain ⟨⟨found, tail⟩, hfound, h⟩ := Option.bind_eq_some_iff.mp h
  obtain ⟨rfl, -⟩ := Prod.mk.inj (Option.some.inj h)
  exact isWord_of_parseWords hfound (head_dropWhile_space buffer)

theorem head_of_parseCommand (hw : IsWord w) (hstop : wordChar b = false)
    (h : parseCommand (w ++ b :: tail) = some (words, rest)) : ∃ later, words = w :: later := by
  obtain ⟨⟨found, cut⟩, hfound, h⟩ := Option.bind_eq_some_iff.mp h
  obtain ⟨rfl, -⟩ := Prod.mk.inj (Option.some.inj h)
  rw [dropWhile_space_word hw, maxCommandWords, parseWords_word hw hstop 9 tail] at hfound
  split at hfound
  · cases hfound
  · obtain ⟨parsed, -, hparsed⟩ := Option.map_eq_some_iff.mp hfound
    exact ⟨parsed.1, (Prod.mk.inj hparsed).1.symm⟩

-- ---------------------------------------------------------------------------
-- One turn
-- ---------------------------------------------------------------------------

/-- The words of a command as they are read: the first is known, and there is
room for all. -/
structure Read (words : Command) : Prop where
  known : ∃ word operands, words = word :: operands ∧ (operandCount word).isSome
  length : words.length ≤ maxCommandWords

theorem dispatch_words (hread : Read words) (hops : ∀ operand ∈ words.tail, IsWord operand)
    (rest : List UInt8) :
    dispatch returns done (joined 32 words ++ 0 :: rest) =
      some (done ++ [words], joined 0 words ++ 0 :: rest, goesOn returns done words) := by
  obtain ⟨⟨word, operands, rfl, hknown⟩, hlen⟩ := hread
  have hwords : ∀ w ∈ word :: operands, IsWord w :=
    List.forall_mem_cons.mpr ⟨isWord_of_operandCount hknown, hops⟩
  rw [dispatch, parseCommand_joined (List.cons_ne_nil _ _) hwords hlen]
  simp [hknown, goesOn]

theorem dispatch_other (hread : Read words) (hops : ¬∀ operand ∈ words.tail, IsWord operand)
    (h : dispatch returns done (joined 32 words ++ 0 :: rest) = some (done', buffer, running)) :
    ∃ found, done' = done ++ [found] ∧ found ≠ words := by
  obtain ⟨⟨word, operands, rfl, hknown⟩, -⟩ := hread
  have hword := isWord_of_operandCount hknown
  obtain ⟨b, tail, hstop, htext⟩ : ∃ b tail, wordChar b = false ∧
      joined 32 (word :: operands) ++ 0 :: rest = word ++ b :: tail := by
    cases operands with
    | nil => exact ⟨0, rest, rfl, rfl⟩
    | cons first operands =>
      refine ⟨32, joined 32 (first :: operands) ++ 0 :: rest, rfl, ?_⟩
      rw [joined_cons_cons, List.append_assoc, List.cons_append]
  rw [htext] at h
  obtain ⟨⟨found, cut⟩, hfound, h⟩ := Option.bind_eq_some_iff.mp h
  obtain ⟨later, rfl⟩ := head_of_parseCommand hword hstop hfound
  simp only [hknown, if_true, Option.some.injEq, Prod.mk.injEq] at h
  refine ⟨word :: later, h.1.symm, ?_⟩
  rintro heq
  have hall := isWord_of_parseCommand hfound
  rw [heq] at hall
  exact hops fun operand hoperand => hall operand (List.mem_cons_of_mem _ hoperand)

theorem dispatch_left_iff (returns : List Command → Bool) (done : List Command)
    (buffer : List UInt8) :
    (dispatch returns done buffer).map Prod.fst = some done ↔ Commandless buffer = true := by
  rw [dispatch, Commandless]
  cases hparsed : parseCommand buffer with
  | none => simp
  | some parsed =>
    obtain ⟨words, cut⟩ := parsed
    cases words with
    | nil => simp
    | cons word words =>
      by_cases hknown : (operandCount word).isSome
      · simp [hknown, Option.isSome_iff_ne_none.mp hknown]
      · simp [Option.not_isSome_iff_eq_none.mp hknown]

theorem not_commandless_words (hread : Read words) (rest : List UInt8) :
    Commandless (joined 0 words ++ 0 :: rest) = false := by
  obtain ⟨⟨word, operands, rfl, hknown⟩, -⟩ := hread
  obtain ⟨tail, htext⟩ : ∃ tail, joined 0 (word :: operands) ++ 0 :: rest =
      joined 32 [word] ++ 0 :: tail := by
    cases operands with
    | nil => exact ⟨rest, rfl⟩
    | cons first operands =>
      refine ⟨joined 0 (first :: operands) ++ 0 :: rest, ?_⟩
      rw [joined_cons_cons, List.append_assoc, List.cons_append]
      rfl
  have hword : ∀ w ∈ [word], IsWord w :=
    List.forall_mem_singleton.mpr (isWord_of_operandCount hknown)
  have hone : [word].length ≤ maxCommandWords := show 1 ≤ 10 by decide
  rw [htext, Commandless, parseCommand_joined (List.cons_ne_nil _ _) hword hone]
  simp [hknown]

-- ---------------------------------------------------------------------------
-- Reading the arguments
-- ---------------------------------------------------------------------------

/-- A known word is assembled with the operands that it is read with, and an
unknown one is passed over by both. -/
theorem readArgs_cons (h : readArgs (word :: args) = some items) :
    (∃ later, items = .unknown word :: later ∧ readArgs args = some later ∧
        assemble (word :: args) = assemble args) ∨
      ∃ words args' later, items = .command words :: later ∧ Read words ∧
        readArgs args' = some later ∧ args'.length ≤ args.length ∧
        assemble (word :: args) = .command words args' := by
  unfold readArgs at h
  split at h
  · rename_i hcount
    obtain ⟨later, hlater, rfl⟩ := Option.map_eq_some_iff.mp h
    exact .inl ⟨later, rfl, hlater, by simp only [assemble, hcount]⟩
  · rename_i hcount
    obtain ⟨later, hlater, rfl⟩ := Option.map_eq_some_iff.mp h
    refine .inr ⟨[word], _, later, rfl, ⟨⟨word, [], rfl, ?_⟩, ?_⟩, hlater, Nat.le_refl _, ?_⟩
    · rw [hcount]; rfl
    · exact show 1 ≤ 10 by decide
    · simp only [assemble, hcount]
  · rename_i first args hcount
    obtain ⟨later, hlater, rfl⟩ := Option.map_eq_some_iff.mp h
    refine .inr ⟨[word, first], args, later, rfl, ⟨⟨word, [first], rfl, ?_⟩, ?_⟩, hlater, ?_, ?_⟩
    · rw [hcount]; rfl
    · exact show 2 ≤ 10 by decide
    · exact Nat.le_succ _
    · simp only [assemble, hcount]
  · rename_i first second args hcount
    obtain ⟨later, hlater, rfl⟩ := Option.map_eq_some_iff.mp h
    refine .inr ⟨[word, first, second], args, later, rfl, ⟨⟨word, [first, second], rfl, ?_⟩, ?_⟩,
      hlater, ?_, ?_⟩
    · rw [hcount]; rfl
    · exact show 3 ≤ 10 by decide
    · exact Nat.le_add_right _ 2
    · simp only [assemble, hcount]
  · cases h

theorem executed_prefix (returns : List Command → Bool) (done commands : List Command) :
    done <+: executed returns done commands := by
  induction commands generalizing done with
  | nil => exact List.prefix_refl done
  | cons words commands ih =>
    have hgrow : done <+: done ++ [words] := List.prefix_append ..
    rw [executed]
    split
    · exact hgrow.trans (ih _)
    · exact hgrow

theorem executed_cons_initial (returns : List Command → Bool) (done : List Command)
    (words : Command) (commands : List Command) :
    done ++ [words] <+: executed returns done (words :: commands) := by
  rw [executed]
  split
  · exact executed_prefix ..
  · exact List.prefix_refl _

theorem dispatch_prefix (h : dispatch returns done buffer = some (done', cut, running)) :
    done <+: done' := by
  obtain ⟨⟨words, rest⟩, -, h⟩ := Option.bind_eq_some_iff.mp h
  cases words with
  | nil =>
    obtain ⟨rfl, -⟩ := Prod.mk.inj (Option.some.inj h)
    exact List.prefix_refl done
  | cons word words =>
    simp only at h
    split at h
    · obtain ⟨rfl, -⟩ := Prod.mk.inj (Option.some.inj h)
      exact List.prefix_append ..
    · obtain ⟨rfl, -⟩ := Prod.mk.inj (Option.some.inj h)
      exact List.prefix_refl done

theorem mainLoop_prefix (h : mainLoop returns n done buffer args = some all) : done <+: all := by
  induction n generalizing done buffer args with
  | zero =>
    obtain rfl := Option.some.inj h
    exact List.prefix_refl _
  | succ n ih =>
    rw [mainLoop] at h
    split at h
    · obtain rfl := Option.some.inj h
      exact List.prefix_refl _
    · cases hassembled : assemble args with
      | exit =>
        rw [hassembled] at h
        obtain rfl := Option.some.inj h
        exact List.prefix_refl _
      | nothing =>
        rw [hassembled] at h
        obtain ⟨⟨done', cut, running⟩, hdispatch, h⟩ := Option.bind_eq_some_iff.mp h
        obtain rfl := Option.some.inj h
        exact dispatch_prefix hdispatch
      | command words args =>
        rw [hassembled] at h
        obtain ⟨copied, -, h⟩ := Option.bind_eq_some_iff.mp h
        obtain ⟨⟨done', cut, running⟩, hdispatch, h⟩ := Option.bind_eq_some_iff.mp h
        have hgrow := dispatch_prefix hdispatch
        cases running with
        | true => exact hgrow.trans (ih h)
        | false =>
          obtain rfl := Option.some.inj h
          exact hgrow

def Fit (commands : List Command) : Prop :=
  ∀ words ∈ commands, (joined 32 words).length < maxCommandLength

instance (commands : List Command) : Decidable (Fit commands) :=
  inferInstanceAs (Decidable (∀ words ∈ commands, _))

theorem eq_of_initial {first second : Command} (h₁ : done ++ [first] <+: all)
    (h₂ : done ++ [second] <+: all) : first = second := by
  have hsame : done ++ [first] = done ++ [second] :=
    (List.prefix_of_prefix_length_le h₁ h₂ (by simp)).eq_of_length (by simp)
  exact (List.cons.inj (List.append_cancel_left hsame)).1

/-- What is dispatched in a turn where the words are put into the buffer, if the
turns behind it are right. -/
theorem turn_command_iff {next : List Command → List UInt8 → List (List UInt8) →
      Option (List Command)}
    (hinitial : ∀ done buffer all, next done buffer args = some all → done <+: all)
    (hnext : ∀ rest, next (done ++ [words]) (joined 0 words ++ 0 :: rest) args =
        some (executed returns (done ++ [words]) (Item.commands items)) ↔
      Faultless returns (done ++ [words]) false false items)
    (hread : Read words) (hfit : (joined 32 words).length < maxCommandLength) :
    turn returns next done buffer (.command words args) =
        some (executed returns done (Item.commands (.command words :: items))) ↔
      Faultless returns done (Commandless buffer) true (.command words :: items) := by
  have hcopy : copyWords buffer words =
      some (joined 32 words ++ 0 :: buffer.drop ((joined 32 words).length + 1)) := if_pos hfit
  rw [turn, hcopy, Faultless, Item.commands]
  simp only [Option.bind_eq_bind, Option.bind_some]
  by_cases hops : ∀ operand ∈ words.tail, IsWord operand
  · rw [dispatch_words hread hops, executed, and_iff_right hops]
    cases hgo : goesOn returns done words with
    | true => simpa using hnext _
    | false => simp
  · refine iff_of_false (fun h => ?_) fun h => hops h.1
    obtain ⟨⟨done', cut, running⟩, hdispatch, h⟩ := Option.bind_eq_some_iff.mp h
    obtain ⟨found, rfl, hne⟩ := dispatch_other hread hops hdispatch
    have hfound : done ++ [found] <+: executed returns done (words :: Item.commands items) := by
      cases running with
      | true => exact hinitial _ _ _ h
      | false => exact Option.some.inj h ▸ List.prefix_refl _
    exact hne (eq_of_initial hfound (executed_cons_initial ..))

theorem turn_iff
    (hnext : ∀ done buffer args items, args.length ≤ n → readArgs args = some items →
      Fit (Item.commands items) →
      (mainLoop returns n done buffer args =
          some (executed returns done (Item.commands items)) ↔
        Faultless returns done (Commandless buffer) false items))
    (hread : readArgs args = some items) (hn : args.length ≤ n + 1)
    (hfit : Fit (Item.commands items)) :
    turn returns (mainLoop returns n) done buffer (assemble args) =
        some (executed returns done (Item.commands items)) ↔
      Faultless returns done (Commandless buffer) true items := by
  induction args generalizing items with
  | nil =>
    obtain rfl := Option.some.inj hread
    have hleft := dispatch_left_iff returns done buffer
    rw [Option.map_eq_bind] at hleft
    exact hleft.trans ⟨fun h _ => h, fun h => h rfl⟩
  | cons word args ih =>
    rcases readArgs_cons hread with ⟨later, rfl, hlater, hassemble⟩ |
      ⟨words, args', later, rfl, hwords, hlater, hle, hassemble⟩
    · rw [hassemble]
      have hpassed := ih hlater (Nat.le_of_succ_le hn) hfit
      exact hpassed
    · have hshort : args'.length ≤ n := Nat.le_trans hle (Nat.le_of_succ_le_succ hn)
      obtain ⟨hone, hrest⟩ := List.forall_mem_cons.mp hfit
      rw [hassemble]
      refine turn_command_iff (fun done buffer all h => mainLoop_prefix h) (fun rest => ?_)
        hwords hone
      have hbehind := hnext (done ++ [words]) (joined 0 words ++ 0 :: rest) args' later hshort
        hlater hrest
      rwa [not_commandless_words hwords rest] at hbehind

theorem mainLoop_iff (hn : args.length ≤ n) (hread : readArgs args = some items)
    (hfit : Fit (Item.commands items)) :
    mainLoop returns n done buffer args = some (executed returns done (Item.commands items)) ↔
      Faultless returns done (Commandless buffer) false items := by
  induction n generalizing done buffer args items with
  | zero =>
    obtain rfl := List.length_eq_zero_iff.mp (Nat.le_zero.mp hn)
    obtain rfl := Option.some.inj hread
    exact iff_of_true rfl fun h => absurd h Bool.false_ne_true
  | succ n ih =>
    rw [mainLoop]
    cases args with
    | nil =>
      obtain rfl := Option.some.inj hread
      exact iff_of_true rfl fun h => absurd h Bool.false_ne_true
    | cons word args =>
      rw [if_neg (List.cons_ne_nil _ _), turn_iff (fun done buffer args items => ih) hread hn hfit]
      -- something was read, so it does not matter what was passed over before
      cases items with
      | nil =>
        rcases readArgs_cons hread with ⟨_, h, -⟩ | ⟨_, _, _, h, -⟩ <;> cases h
      | cons item items => cases item <;> rfl

/-- The commands that are dispatched before the prompt are those that the
arguments spell, exactly if the operands are words and nothing unknown comes
last. -/
theorem dispatched_iff (hread : readArgs args = some items) (hfit : Fit (Item.commands items)) :
    dispatched returns commandText args = some (executed returns [] (Item.commands items)) ↔
      Faultless returns [] (Commandless commandText) false items :=
  mainLoop_iff (Nat.le_refl _) hread hfit

def blankText : List UInt8 := List.replicate maxCommandLength 0

theorem dispatched_iff_unknown_inside :
    dispatched (fun _ => true) blankText
        [text "Set", text "rate", text "1G", text "now", text "dir", text "quit", text "help"] =
      some [[text "Set", text "rate", text "1G"], [text "dir"], [text "quit"]] := by
  have hread : readArgs [text "Set", text "rate", text "1G", text "now", text "dir", text "quit",
      text "help"] = some [.command [text "Set", text "rate", text "1G"], .unknown (text "now"),
        .command [text "dir"], .command [text "quit"], .command [text "help"]] := by
    decide +kernel
  exact (dispatched_iff hread (by decide +kernel)).mpr (by decide +kernel)

/-- Behind an unknown word at the end the command before is dispatched again. -/
theorem unknown_word_dispatches :
    dispatched (fun _ => true) blankText [text "dir", text "now"] =
        some [[text "dir"], [text "dir"]] ∧
      readArgs [text "dir", text "now"] = some [.command [text "dir"], .unknown (text "now")] ∧
      dispatched (fun _ => true) blankText [text "dir", text "now"] ≠
        some (executed (fun _ => true) []
          (Item.commands [.command [text "dir"], .unknown (text "now")])) := by
  refine ⟨?_, ?_, ?_⟩ <;> decide +kernel

end Tsunami.Client
