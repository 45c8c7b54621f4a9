import Mathlib.Data.List.Basic
import Mathlib.Data.Nat.Notation

/-! # Lines and envelopes on a byte stream

Both sides of a connection write one JSON text and a newline, and read with `ReadBytes('\n')`. The
stream is the list of the bytes that arrive before the end of the stream or a read error, which both end
`ReadBytes`. `json.Marshal` and `json.Unmarshal` are parameters.
-/

namespace GolangMQ.Transport

/-- The byte that ends a line. -/
def newline : UInt8 := 10

/-- `ReadBytes('\n')`: the first line with its newline and what follows it, or the error at the end of the stream. -/
def readLine : List UInt8 → Option (List UInt8 × List UInt8)
  | [] => none
  | byte :: rest =>
    if byte = newline then some ([byte], rest)
    else (readLine rest).map fun (line, after) => (byte :: line, after)

private theorem readLine_append {text : List UInt8} (clean : newline ∉ text) (rest : List UInt8) :
    readLine (text ++ newline :: rest) = some (text ++ [newline], rest) := by
  induction text with
  | nil => simp [readLine]
  | cons byte text ih =>
    simp only [List.mem_cons, not_or] at clean
    rw [List.cons_append, readLine, if_neg (Ne.symm clean.1), ih clean.2]
    rfl

private theorem readLine_unterminated {text : List UInt8} (clean : newline ∉ text) : readLine text = none := by
  induction text with
  | nil => rfl
  | cons byte text ih =>
    simp only [List.mem_cons, not_or] at clean
    rw [readLine, if_neg (Ne.symm clean.1), ih clean.2]
    rfl

/-- A line that was read is a text without newline, then the newline, and the stream starts with it. -/
theorem readLine_eq_some {stream line rest : List UInt8} :
    readLine stream = some (line, rest) ↔
      ∃ text, newline ∉ text ∧ line = text ++ [newline] ∧ stream = line ++ rest := by
  constructor
  · intro read
    induction stream generalizing line with
    | nil => cases read
    | cons byte stream ih =>
      rw [readLine] at read
      split_ifs at read with ends
      · cases read
        exact ⟨[], List.not_mem_nil, by rw [ends]; rfl, rfl⟩
      · obtain ⟨⟨line', rest'⟩, read', eq⟩ := Option.map_eq_some_iff.1 read
        cases eq
        obtain ⟨text, clean, rfl, rfl⟩ := ih read'
        exact ⟨byte :: text, by simp [clean, Ne.symm ends], rfl, rfl⟩
  · rintro ⟨text, clean, rfl, rfl⟩
    rw [List.append_assoc]
    exact readLine_append clean rest

private theorem length_of_readLine {stream line rest : List UInt8} (read : readLine stream = some (line, rest)) :
    rest.length < stream.length := by
  obtain ⟨text, -, rfl, rfl⟩ := readLine_eq_some.1 read
  simp only [List.length_append, List.length_singleton]
  omega

section Envelopes

variable {α : Type*} (marshal : α → List UInt8) (unmarshal : List UInt8 → Option α)

/-- The bytes `WriteEnvelope` and `WriteMessage` hand to `send`: the JSON text and a newline. -/
def frame (env : α) : List UInt8 := marshal env ++ [newline]

/-- What repeated `ReadEnvelope` returns before its first error. -/
def readEnvelopes (stream : List UInt8) : List α :=
  match _ : readLine stream with
  | none => []
  | some (line, rest) =>
    match unmarshal line with
    | none => []
    | some env => env :: readEnvelopes rest
termination_by stream.length
decreasing_by exact length_of_readLine ‹_›

variable {marshal unmarshal}

theorem readEnvelopes_unterminated {text : List UInt8} (clean : newline ∉ text) :
    readEnvelopes unmarshal text = [] := by
  rw [readEnvelopes]
  split
  · rfl
  · next read => simp [readLine_unterminated clean] at read

variable (clean : ∀ env, newline ∉ marshal env) (inverse : ∀ env, unmarshal (frame marshal env) = some env)
include clean inverse

private theorem readEnvelopes_frame (env : α) (rest : List UInt8) :
    readEnvelopes unmarshal (frame marshal env ++ rest) = env :: readEnvelopes unmarshal rest := by
  have line : readLine (frame marshal env ++ rest) = some (frame marshal env, rest) :=
    readLine_eq_some.2 ⟨marshal env, clean env, rfl, rfl⟩
  rw [readEnvelopes]
  split
  · next read => simp [line] at read
  · next read =>
    rw [line] at read
    cases read
    simp only [inverse]

/-- Frames that stand one after the other are read back one after the other. -/
theorem readEnvelopes_frames (envs : List α) (rest : List UInt8) :
    readEnvelopes unmarshal (envs.flatMap (frame marshal) ++ rest) = envs ++ readEnvelopes unmarshal rest := by
  induction envs with
  | nil => rfl
  | cons env envs ih =>
    rw [List.flatMap_cons, List.append_assoc, readEnvelopes_frame clean inverse, ih, List.cons_append]

/-- A part of a frame is read as nothing unless it is the whole frame. -/
theorem readEnvelopes_of_isPrefix {env : α} {part : List UInt8} (begins : part <+: frame marshal env) :
    readEnvelopes unmarshal part = [] ∨ part = frame marshal env ∧ readEnvelopes unmarshal part = [env] := by
  rcases List.prefix_concat_iff.1 begins with whole | inside
  · refine .inr ⟨whole, ?_⟩
    have read := readEnvelopes_frame clean inverse env []
    rw [List.append_nil, readEnvelopes_unterminated List.not_mem_nil] at read
    rw [whole]
    exact read
  · exact .inl (readEnvelopes_unterminated fun mem => clean env (inside.subset mem))

end Envelopes

end GolangMQ.Transport
