import MicroHermes.Lib.BufWriter
import MicroHermes.Lib.Text

set_option autoImplicit false

namespace LineLog

open Fallible BufWriter

section Operations

variable (device : Nat → Option Nat) (capacity every : Nat)

def writeln (line : List Char) : Writing Char Unit := do
  writeAll device capacity line
  writeAll device capacity ['\n']

def append (pending : Nat) (line : List Char) : Writing Char Nat := do
  writeln device capacity line
  if every ≤ pending + 1 then
    flushBuf device
    return 0
  else return pending + 1

def appends (pending : Nat) (lines : List (List Char)) : Writing Char Nat :=
  lines.foldlM (append device capacity every) pending

end Operations

variable {device : Nat → Option Nat} {capacity every pending : Nat} {w : BufWriter Char}
  {header : List Char} {lines : List (List Char)}

theorem writeln_writes (line : List Char) :
    Writes w (writeln device capacity line) (line ++ ['\n']) :=
  (writeAll_writes line).bind fun _ _ _ => writeAll_writes ['\n']

structure Logged (every : Nat) (header : List Char) (lines : List (List Char)) (pending : Nat)
    (w : BufWriter Char) : Prop where
  text : w.text = Text.unlines (header :: lines)
  few : pending < every
  within : pending ≤ lines.length
  flushed : pending < lines.length →
    Text.unlines (header :: lines.take (lines.length - pending)) <+: w.file

theorem unlines_concat (line : List Char) :
    Text.unlines (header :: (lines ++ [line])) =
      Text.unlines (header :: lines) ++ (line ++ ['\n']) := by
  simp [Text.unlines]

theorem writeln_logged (positive : 0 < every) (empty : w.text = []) :
    Ensures w (writeln device capacity header) (fun _ after => Logged every header [] 0 after)
      (fun _ _ => True) := by
  have written := @writeln_writes device capacity w header
  rw [Writes, empty] at written
  refine Ensures.mono written ?_ fun _ _ _ => trivial
  rintro _ after ⟨text, _⟩
  have unwritten : ¬ 0 < ([] : List (List Char)).length := Nat.lt_irrefl 0
  exact ⟨by simp [text, Text.unlines], positive, le_rfl, fun some => absurd some unwritten⟩

theorem append_logged (logged : Logged every header lines pending w) (line : List Char) :
    Ensures w (append device capacity every pending line)
      (fun pending after => Logged every header (lines ++ [line]) pending after ∧
        w.file <+: after.file)
      (fun _ after => after.text <+: Text.unlines (header :: (lines ++ [line])) ∧
        w.file <+: after.file) := by
  have positive : 0 < every := Nat.zero_lt_of_lt logged.few
  have written := @writeln_writes device capacity w line
  rw [Writes, logged.text, ← unlines_concat] at written
  refine Ensures.bind written ?_
  rintro _ after ⟨text, grown⟩
  have count : (lines ++ [line]).length = lines.length + 1 := by simp
  split
  · next full =>
      refine Ensures.bind (Ensures.mono flushBuf_ensures (fun _ _ holds => holds) ?_) ?_
      · rintro _ flushed ⟨same, more⟩
        exact ⟨same.trans text ▸ List.prefix_rfl, grown.trans more⟩
      rintro _ flushed ⟨file, buf⟩
      have whole : flushed.file = Text.unlines (header :: (lines ++ [line])) := file.trans text
      refine Ensures.pure ⟨⟨?_, positive, Nat.zero_le _, fun _ => ?_⟩, ?_⟩
      · rw [BufWriter.text, buf, List.append_nil, whole]
      · exact ⟨[], by rw [List.append_nil, Nat.sub_zero, List.take_length, whole]⟩
      · rw [file]
        exact grown.trans (List.prefix_append _ _)
  · next few =>
      have within := logged.within
      refine Ensures.pure ⟨⟨text, by omega, by omega, fun some => ?_⟩, grown⟩
      rw [count, Nat.add_sub_add_right, List.take_append_of_le_length (Nat.sub_le ..)]
      exact (logged.flushed (by omega)).trans grown

theorem appends_logged (logged : Logged every header lines pending w) (more : List (List Char)) :
    Ensures w (appends device capacity every pending more)
      (Logged every header (lines ++ more)) (fun _ _ => True) := by
  induction more generalizing lines pending w with
  | nil =>
      rw [List.append_nil]
      exact Ensures.pure logged
  | cons line rest ih =>
      rw [appends, List.foldlM_cons]
      refine Ensures.bind (Ensures.mono (append_logged logged line) (fun _ _ holds => holds)
        fun _ _ _ => trivial) ?_
      intro pending after ⟨logged, _⟩
      have all := ih logged
      rwa [List.append_assoc, List.singleton_append] at all

/-- The file is some of the lines and a part of the next one, and fewer than `every` of the first
`count` lines after the header are missing. -/
def Kept (every : Nat) (header : List Char) (lines : List (List Char)) (count : Nat)
    (file : List Char) : Prop :=
  ∃ kept torn, kept ≤ lines.length + 1 ∧
    file = Text.unlines ((header :: lines).take kept) ++ torn ∧
    (torn = [] ∨ ∃ line, (header :: lines)[kept]? = some line ∧ torn <+: line) ∧
    count - (kept - 1) < every

theorem Kept.of_cut {count : Nat} {file : List Char}
    (clean : ∀ line ∈ header :: lines, '\n' ∉ line)
    (cut : file <+: Text.unlines (header :: lines)) (few : pending < every)
    (inside : count ≤ lines.length) (flushed : pending < count →
      Text.unlines (header :: lines.take (count - pending)) <+: file) :
    Kept every header lines count file := by
  obtain ⟨kept, torn, bound, rfl, last⟩ := Text.torn_of_prefix_unlines cut
  refine ⟨kept, torn, by simpa using bound, rfl, last, ?_⟩
  by_cases all : count ≤ pending
  · omega
  -- The newlines of the flushed lines are in the file, and what is torn off has none.
  have whole : torn.count '\n' = 0 := by
    rcases last with rfl | ⟨line, found, part⟩
    · rfl
    · exact List.count_eq_zero_of_not_mem fun member =>
        clean line (List.mem_of_getElem? found) (part.subset member)
  have more := (flushed (by omega)).sublist.count_le '\n'
  have early : ∀ line ∈ header :: lines.take (count - pending), '\n' ∉ line := fun line among =>
    clean line (List.cons_subset_cons _ (List.take_subset _ _) among)
  rw [List.count_append, whole, Text.count_newline_unlines early,
    Text.count_newline_unlines fun line among => clean line (List.mem_of_mem_take among)] at more
  simp only [List.length_cons, List.length_take] at more bound
  omega

theorem Logged.kept (logged : Logged every header lines pending w)
    (clean : ∀ line ∈ header :: lines, '\n' ∉ line) :
    Kept every header lines lines.length w.file :=
  .of_cut clean (logged.text ▸ List.prefix_append _ _) logged.few le_rfl logged.flushed

theorem Logged.kept_append (logged : Logged every header lines pending w) {line : List Char}
    (clean : ∀ other ∈ header :: (lines ++ [line]), '\n' ∉ other) {result : Except Unit Nat}
    {after : BufWriter Char}
    (ran : outcome (append device capacity every pending line) w = (result, after)) :
    Kept every header (lines ++ [line]) lines.length after.file := by
  have appended := @append_logged device capacity every pending w header lines logged line
  rw [Ensures, ran] at appended
  have within : after.text <+: Text.unlines (header :: (lines ++ [line])) ∧
      w.file <+: after.file := by
    cases result with
    | ok pending => exact ⟨appended.1.text ▸ List.prefix_rfl, appended.2⟩
    | error fault => exact appended
  refine .of_cut clean ((List.prefix_append _ _).trans within.1) logged.few (by simp) fun some => ?_
  rw [List.take_append_of_le_length (Nat.sub_le ..)]
  exact (logged.flushed some).trans within.2

theorem Logged.kept_flush (logged : Logged every header lines pending w)
    (clean : ∀ line ∈ header :: lines, '\n' ∉ line) {result : Except Unit Unit}
    {after : BufWriter Char} (ran : outcome (flushBuf device) w = (result, after)) :
    Kept every header lines lines.length after.file ∧
      (result = .ok () → after.file = Text.unlines (header :: lines)) := by
  have flushing := @flushBuf_ensures _ device w
  rw [Ensures, ran] at flushing
  cases result with
  | ok _ =>
      have whole := flushing.1.trans logged.text
      refine ⟨.of_cut clean (whole ▸ List.prefix_rfl) logged.few le_rfl fun some => ?_,
        fun _ => whole⟩
      rw [whole, ← logged.text]
      exact (logged.flushed some).trans (List.prefix_append _ _)
  | error fault =>
      refine ⟨.of_cut clean ?_ logged.few le_rfl fun some =>
        (logged.flushed some).trans flushing.2, nofun⟩
      rw [← logged.text, ← flushing.1]
      exact List.prefix_append _ _

end LineLog
