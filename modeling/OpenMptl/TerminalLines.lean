/-
The loop body of `process_input()` against the input read line by line.  Every byte
keeps the terminal in step with the reading, but for the CR of a line that has filled
the buffer: its terminating 0 goes to the index behind the last element.
-/
import Mathlib.Data.List.Induction
import OpenMptl.Terminal

namespace OpenMptl

namespace Terminal

variable {echo : Bool} {input : List UInt8} {t : Terminal}

theorem store_of_lt {index : Nat} (h : index < cmdBufSize) (c : UInt8) :
    t.store index c = .ok { t with cmdBuf := t.cmdBuf.set index c h } := dif_pos h

/-! What the loop body does, one lemma a branch. -/

theorem processChar_cr (h : t.cmdIndex < cmdBufSize) :
    t.processChar echo 13 = .ok {
      cmdBuf := t.cmdBuf.set t.cmdIndex 0 h
      cmdIndex := 0
      calls := t.calls ++ (if echo then [.puts newline] else []) ++
        (if t.cmdIndex = 0 then []
          else [.execute ((t.cmdBuf.set t.cmdIndex 0 h).toList.takeWhile (· ≠ 0))]) ++
        [.puts prompt] } := by
  cases echo with
  | false =>
      simp only [processChar, ↓reduceIte, Bool.false_eq_true, store_of_lt h, call, command]
      split <;> simp_all
  | true =>
      have hstore := @store_of_lt (t.call (.puts newline)) _ h 0
      simp only [call] at hstore
      simp only [processChar, ↓reduceIte, call, hstore, command]
      split <;> simp_all

theorem processChar_cr_full (h : ¬ t.cmdIndex < cmdBufSize) :
    t.processChar echo 13 = .error t.cmdIndex := by
  cases echo <;> simp [processChar, store, call, h]

theorem processChar_printable {c : UInt8} (hc : isPrintable c = true)
    (h : t.cmdIndex < cmdBufSize) :
    t.processChar echo c = .ok {
      cmdBuf := t.cmdBuf.set t.cmdIndex c h
      cmdIndex := t.cmdIndex + 1
      calls := t.calls ++ echoCalls echo [c] } := by
  simp only [isPrintable, Bool.and_eq_true, decide_eq_true_eq] at hc
  have hcr : c ≠ 13 := by
    rintro rfl
    exact absurd hc.1 (by decide)
  cases echo <;> simp [processChar, store, call, echoCalls, hcr, hc, h]

/-- A byte that is not printable is ignored, and so is any when the buffer is full. -/
theorem processChar_ignored {c : UInt8} (hcr : c ≠ 13)
    (h : isPrintable c = true → ¬ t.cmdIndex < cmdBufSize) :
    t.processChar echo c = .ok t := by
  have hbranch : ¬ (32 ≤ c ∧ c ≤ 126 ∧ t.cmdIndex < cmdBufSize) := by
    rintro ⟨hlow, hhigh, hroom⟩
    exact h (by simp [isPrintable, hlow, hhigh]) hroom
  simp [processChar, hcr, hbranch]

/-! How the reading of the input grows with a byte. -/

theorem linesFit_concat_cr : LinesFit (input ++ [13]) ↔
    LinesFit input ∧ (printables (partialLine 13 input)).length < cmdBufSize := by
  simp only [LinesFit, (lines_concat_sep 13 input).1, List.forall_mem_append,
    List.forall_mem_singleton]

theorem linesFit_concat_of_ne {c : UInt8} (hc : c ≠ 13) :
    LinesFit (input ++ [c]) ↔ LinesFit input := by
  rw [LinesFit, (lines_concat_of_ne hc input).1, LinesFit]

/-- What has been taken first fits if all of it does. -/
theorem LinesFit.of_append (rest : List UInt8) (h : LinesFit (input ++ rest)) :
    LinesFit input := by
  induction rest using List.reverseRecOn with
  | nil => rwa [List.append_nil] at h
  | append_singleton rest c ih =>
      rw [← List.append_assoc] at h
      by_cases hc : c = 13
      · subst hc
        exact ih (linesFit_concat_cr.mp h).1
      · exact ih ((linesFit_concat_of_ne hc).mp h)

theorem lineText_concat_cr : lineText (input ++ [13]) = [] := by
  simp [lineText, (lines_concat_sep 13 input).2, printables]

theorem lineText_concat_of_ne {c : UInt8} (hc : c ≠ 13) : lineText (input ++ [c]) =
    (printables (partialLine 13 input) ++ printables [c]).take cmdBufSize := by
  rw [lineText, (lines_concat_of_ne hc input).2, printables, List.filter_append]
  rfl

theorem length_lineText_lt : (lineText input).length < cmdBufSize ↔
    (printables (partialLine 13 input)).length < cmdBufSize := by
  rw [lineText, List.length_take]
  omega

/-- A line with room left is in the buffer as a whole. -/
theorem lineText_of_lt (h : (lineText input).length < cmdBufSize) :
    lineText input = printables (partialLine 13 input) :=
  List.take_of_length_le (length_lineText_lt.mp h).le

theorem lineText_concat_printable {c : UInt8} (hc : c ≠ 13) (hprint : isPrintable c = true)
    (h : (lineText input).length < cmdBufSize) :
    lineText (input ++ [c]) = lineText input ++ [c] := by
  rw [lineText_concat_of_ne hc, ← lineText_of_lt h, printables, List.filter_cons_of_pos hprint]
  refine List.take_of_length_le ?_
  rw [List.length_append]
  exact Nat.succ_le_of_lt h

theorem lineText_concat_ignored {c : UInt8} (hc : c ≠ 13)
    (h : isPrintable c = true → ¬ (lineText input).length < cmdBufSize) :
    lineText (input ++ [c]) = lineText input := by
  rw [lineText_concat_of_ne hc, lineText]
  by_cases hprint : isPrintable c = true
  · have hfull := h hprint
    rw [length_lineText_lt] at hfull
    exact List.take_append_of_le_length (by omega)
  · rw [show printables [c] = [] by simpa [printables] using hprint, List.append_nil]

theorem lineText_nonzero : ∀ c ∈ lineText input, c ≠ 0 := by
  intro c hc
  have hprint := (List.mem_filter.mp (List.mem_of_mem_take hc)).2
  rintro rfl
  exact absurd hprint (by decide)

theorem transcript_concat_cr (h : (lineText input).length < cmdBufSize) :
    transcript echo (input ++ [13]) = transcript echo input ++
      (if echo then [.puts newline] else []) ++ executeCalls (lineText input) ++
        [.puts prompt] := by
  simp only [transcript, (lines_concat_sep 13 input).1, lineText_concat_cr, List.flatMap_append,
    List.flatMap_singleton, ← lineText_of_lt h, lineCalls]
  cases echo <;> simp [echoCalls]

theorem transcript_concat_printable {c : UInt8} (hc : c ≠ 13) (hprint : isPrintable c = true)
    (h : (lineText input).length < cmdBufSize) :
    transcript echo (input ++ [c]) = transcript echo input ++ echoCalls echo [c] := by
  simp only [transcript, (lines_concat_of_ne hc input).1, lineText_concat_printable hc hprint h]
  cases echo <;> simp [echoCalls]

theorem transcript_concat_ignored {c : UInt8} (hc : c ≠ 13)
    (h : isPrintable c = true → ¬ (lineText input).length < cmdBufSize) :
    transcript echo (input ++ [c]) = transcript echo input := by
  simp only [transcript, (lines_concat_of_ne hc input).1, lineText_concat_ignored hc h]

/-- The 0 behind a text without zeros ends the C string there. -/
theorem takeWhile_set_zero {l : List UInt8} {i : Nat} (hi : i < l.length)
    (h : ∀ c ∈ l.take i, c ≠ 0) : (l.set i 0).takeWhile (· ≠ 0) = l.take i := by
  rw [List.set_eq_take_append_cons_drop, if_pos hi,
    List.takeWhile_append_of_pos (by simpa using h)]
  simp

/-- What the terminal is after the input. -/
structure Holds (echo : Bool) (input : List UInt8) (t : Terminal) : Prop where
  index : t.cmdIndex = (lineText input).length
  text : t.cmdBuf.toList.take t.cmdIndex = lineText input
  calls : t.calls.filter (· ≠ .flush) = transcript echo input

theorem Holds.nil (hindex : t.cmdIndex = 0) (hcalls : t.calls = []) : t.Holds echo [] where
  index := hindex
  text := by simp [hindex, lineText, printables]
  calls := by cases echo <;> simp [hcalls, transcript, lineText, printables, echoCalls]

theorem take_succ_set {l : List UInt8} {i : Nat} (hi : i < l.length) (c : UInt8) :
    (l.set i c).take (i + 1) = l.take i ++ [c] := by
  have hlen : i < (l.set i c).length := by rwa [List.length_set]
  rw [List.take_succ_eq_append_getElem hlen, List.getElem_set_self, List.take_set_of_le le_rfl]

/-- A CR stores the 0 behind the line and hands it over. -/
theorem Holds.processChar_cr (h : t.Holds echo input)
    (hroom : (lineText input).length < cmdBufSize) :
    ∃ t', t.processChar echo 13 = .ok t' ∧ t'.Holds echo (input ++ [13]) := by
  have hindex : t.cmdIndex < cmdBufSize := h.index ▸ hroom
  refine ⟨_, Terminal.processChar_cr hindex, ?_⟩
  have hcommand : (t.cmdBuf.set t.cmdIndex 0 hindex).toList.takeWhile (· ≠ 0) =
      lineText input := by
    rw [Vector.toList_set, takeWhile_set_zero (by simpa using hindex), h.text]
    rw [h.text]
    exact lineText_nonzero
  have hempty : t.cmdIndex = 0 ↔ lineText input = [] := by
    rw [h.index, List.length_eq_zero_iff]
  exact {
    index := by rw [lineText_concat_cr]; rfl
    text := by rw [lineText_concat_cr]; rfl
    calls := by
      simp only [hcommand, hempty, List.filter_append, h.calls, transcript_concat_cr hroom,
        executeCalls]
      cases echo <;> by_cases hline : lineText input = [] <;> simp [hline] }

/-- A printable character is stored behind the line and echoed. -/
theorem Holds.processChar_printable (h : t.Holds echo input) {c : UInt8} (hcr : c ≠ 13)
    (hprint : isPrintable c = true) (hroom : (lineText input).length < cmdBufSize) :
    ∃ t', t.processChar echo c = .ok t' ∧ t'.Holds echo (input ++ [c]) := by
  have hindex : t.cmdIndex < cmdBufSize := h.index ▸ hroom
  refine ⟨_, Terminal.processChar_printable hprint hindex, ?_⟩
  have hline := lineText_concat_printable hcr hprint hroom
  exact {
    index := by
      rw [hline, List.length_append, ← h.index]
      rfl
    text := by
      rw [hline, Vector.toList_set, take_succ_set (by simpa using hindex), h.text]
    calls := by
      rw [transcript_concat_printable hcr hprint hroom, List.filter_append, h.calls]
      cases echo <;> rfl }

theorem Holds.processChar_ignored (h : t.Holds echo input) {c : UInt8} (hcr : c ≠ 13)
    (hignored : isPrintable c = true → ¬ (lineText input).length < cmdBufSize) :
    ∃ t', t.processChar echo c = .ok t' ∧ t'.Holds echo (input ++ [c]) := by
  refine ⟨t, Terminal.processChar_ignored hcr (h.index ▸ hignored), ?_⟩
  have hline := lineText_concat_ignored hcr hignored
  exact {
    index := by rw [hline, h.index]
    text := by rw [hline, h.text]
    calls := by rw [transcript_concat_ignored hcr hignored, h.calls] }

theorem Holds.flush (h : t.Holds echo input) (flushTx : Bool) :
    (if flushTx then t.call .flush else t).Holds echo input := by
  cases flushTx with
  | false => exact h
  | true => exact { h with calls := by simpa [call] using h.calls }

/-- One byte: the terminal still holds the input, or the 0 of a full line has gone
to the index behind the buffer. -/
theorem Holds.processChar (h : t.Holds echo input) (hfit : LinesFit input) (c : UInt8) :
    (∃ t', t.processChar echo c = .ok t' ∧ t'.Holds echo (input ++ [c]) ∧
      LinesFit (input ++ [c])) ∨
    (t.processChar echo c = .error cmdBufSize ∧ ¬ LinesFit (input ++ [c])) := by
  by_cases hcr : c = 13
  · subst hcr
    by_cases hroom : (lineText input).length < cmdBufSize
    · obtain ⟨t', ht', hholds⟩ := h.processChar_cr hroom
      exact .inl ⟨t', ht', hholds, linesFit_concat_cr.mpr ⟨hfit, length_lineText_lt.mp hroom⟩⟩
    · have hle : (lineText input).length ≤ cmdBufSize := List.length_take_le ..
      have hindex : t.cmdIndex = cmdBufSize := by rw [h.index]; omega
      have hfull := @processChar_cr_full echo t (by omega)
      rw [hindex] at hfull
      refine .inr ⟨hfull, fun hlonger => hroom ?_⟩
      exact length_lineText_lt.mpr (linesFit_concat_cr.mp hlonger).2
  · have hnext : LinesFit (input ++ [c]) := (linesFit_concat_of_ne hcr).mpr hfit
    by_cases hstored : isPrintable c = true ∧ (lineText input).length < cmdBufSize
    · obtain ⟨t', ht', hholds⟩ := h.processChar_printable hcr hstored.1 hstored.2
      exact .inl ⟨t', ht', hholds, hnext⟩
    · obtain ⟨t', ht', hholds⟩ := h.processChar_ignored hcr (not_and.mp hstored)
      exact .inl ⟨t', ht', hholds, hnext⟩

end Terminal

namespace TxCall

universe u

/-- A flush prints nothing. -/
theorem foldl_print_filter {η : Type u} (execute : List UInt8 → η → η × List UInt8)
    (calls : List TxCall) (st : η × List UInt8) :
    (calls.filter (· ≠ .flush)).foldl (print execute) st = calls.foldl (print execute) st := by
  induction calls generalizing st with
  | nil => rfl
  | cons c calls ih =>
      cases c with
      | flush => exact ih st
      | put | puts | execute => exact ih _

theorem executed_filter (calls : List TxCall) :
    executed (calls.filter (· ≠ .flush)) = executed calls := by
  induction calls with
  | nil => rfl
  | cons c calls ih =>
      cases c with
      | put | puts | flush => exact ih
      | execute cmd => exact congrArg (cmd :: ·) ih

theorem executed_append (calls more : List TxCall) :
    executed (calls ++ more) = executed calls ++ executed more :=
  List.filterMap_append

theorem executed_echoCalls (echo : Bool) (text : List UInt8) :
    executed (Terminal.echoCalls echo text) = [] := by
  cases echo with
  | false => rfl
  | true => simp [executed, Terminal.echoCalls]

/-- A line is executed as a whole, unless it is empty. -/
theorem executed_lineCalls (echo : Bool) (text : List UInt8) :
    executed (Terminal.lineCalls echo text) = if text = [] then [] else [text] := by
  simp only [Terminal.lineCalls, executed_append, executed_echoCalls, Terminal.executeCalls]
  cases echo <;> by_cases htext : text = [] <;> simp [executed, htext]

theorem executed_transcript (echo : Bool) (input : List UInt8) :
    executed (Terminal.transcript echo input) = Terminal.commands input := by
  rw [Terminal.transcript, executed_append, executed_echoCalls, List.append_nil,
    Terminal.commands]
  induction completeLines 13 input with
  | nil => rfl
  | cons line lines ih =>
      rw [List.flatMap_cons, executed_append, executed_lineCalls, ih, List.map_cons]
      by_cases hline : Terminal.printables line = [] <;> simp [hline]

end TxCall

end OpenMptl
