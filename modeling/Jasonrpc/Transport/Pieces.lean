import Jasonrpc.Transport.Stream

/-!
# Delimited streams

A delimited stream is read as the pieces between its delimiters, however it is split: each piece is
a payload, an empty one as well, and what stands behind the last delimiter is a payload just when it
is not empty (`returns_pieces`).
-/

namespace Jasonrpc

open ByteString Incremental ReadCore

/-- Successive calls of `recv` return `rs`, without an error. -/
inductive Returns (f : Framing) : ReadCore → List ReadOutcome → List (Option Bytes) → Prop
  | nil (core : ReadCore) (reads : List ReadOutcome) : Returns f core reads []
  | cons {core core' : ReadCore} {reads reads' : List ReadOutcome} {r : Option Bytes} {wire : Bytes}
      {rs : List (Option Bytes)} (head : core.recv f reads = some ⟨⟨.ok r, core', reads'⟩, wire⟩)
      (tail : Returns f core' reads' rs) : Returns f core reads (r :: rs)

/-- The pieces of `s` between the occurrences of `d`, the last one only if it is not empty. -/
def pieces (d : UInt8) (s : Bytes) : List Bytes :=
  if (s.splitOn d).getLast? = some [] then (s.splitOn d).dropLast else s.splitOn d

example : pieces lf (ascii "a\n\nb") = [ascii "a", [], ascii "b"] := by decide

variable {f : Framing} {readTimeout : Option Duration} {d : UInt8}

theorem Delivers.returns {core core' : ReadCore} {reads reads' : List ReadOutcome}
    {ms : List Bytes} {rs : List (Option Bytes)} (h : Delivers f core reads ms core' reads')
    (hrest : Returns f core' reads' rs) : Returns f core reads (ms.map some ++ rs) := by
  induction h with
  | nil core reads => exact hrest
  | cons head tail ih => exact .cons head (ih hrest)

theorem returns_ended (readTimeout : Option Duration) (hdec : f.decode [] = .ok none) (k : ℕ)
    (rest : List ReadOutcome) :
    Returns f (uncapped readTimeout []) (List.replicate k .eof ++ rest)
      (List.replicate k none) := by
  induction k with
  | zero => exact .nil _ _
  | succ k ih => exact .cons (recv_eof_nil hdec _) ih

/-! ## The pieces of a stream -/

theorem pieces_eq_dropLast {s : Bytes} (h : (s.splitOn d).getLast? = some []) :
    pieces d s = (s.splitOn d).dropLast := if_pos h

/-- A stream is cut into the pieces before its delimiters, up to what stands behind the last one. -/
theorem exists_cleanCuts_splitOn (d : UInt8) (s : Bytes) :
    ∃ last, d ∉ last ∧ s.splitOn d = (s.splitOn d).dropLast ++ [last] ∧
      CleanCuts (Delimited.decode d) s (s.splitOn d).dropLast last := by
  induction hl : s.length using Nat.strong_induction_on generalizing s with
  | _ l ih =>
    by_cases hd : d ∈ s
    · obtain ⟨pre, post, rfl, hpre⟩ := List.eq_append_cons_of_mem hd
      obtain ⟨last, hlast, hsplit, hcuts⟩ := ih post.length
        (by rw [← hl, List.length_append, List.length_cons]; omega) post rfl
      have hcons : (pre ++ d :: post).splitOn d = pre :: post.splitOn d :=
        List.splitOn_append_cons_self_of_not_mem hpre post
      have hdrop : (pre :: post.splitOn d).dropLast = pre :: (post.splitOn d).dropLast :=
        List.dropLast_cons_of_ne_nil (List.splitOn_ne_nil d post)
      have hdec : Delimited.decode d (pre ++ d :: post) = .ok (some (pre, pre.length + 1)) :=
        Delimited.decode_eq_some_iff.2 ⟨post, rfl, hpre, rfl⟩
      refine ⟨last, hlast, ?_, ?_⟩
      · rw [hcons, hdrop, List.cons_append, ← hsplit]
      · rw [hcons, hdrop]
        refine .cons hdec (Delimited.clean hdec) ?_
        rwa [List.append_cons, List.drop_left' (by simp)]
    · have hsingle : s.splitOn d = [s] := List.splitOn_eq_singleton hd
      refine ⟨s, hd, ?_, ?_⟩
      · rw [hsingle]
        rfl
      · rw [hsingle]
        exact .nil s

/-- What the calls return behind the last delimiter: the rest, if there is one, and then the end. -/
theorem returns_last {last b : Bytes} {chunks : List Chunk} (hlast : d ∉ last)
    (hne : ∀ chunk ∈ chunks, chunk.bytes ≠ []) (hs : b ++ chunks.flatMap Chunk.bytes = last) (k : ℕ) :
    Returns (Delimited d) (uncapped readTimeout b) (arrive chunks (List.replicate (k + 2) .eof))
      ((if last = [] then [] else [some last]) ++ List.replicate (k + 1) none) := by
  have hdec (j : ℕ) : (Delimited d).decode (last.take j) = .ok none :=
    Delimited.decode_eq_none fun hmem => hlast (List.mem_of_mem_take hmem)
  have hnil : (Delimited d).decode [] = .ok none := hdec 0
  by_cases h : last = []
  · subst h
    obtain ⟨rfl, hflat⟩ := List.append_eq_nil_iff.1 hs
    obtain rfl := eq_nil_of_flatMap_eq_nil hne hflat
    rw [if_pos rfl]
    have hended := returns_ended readTimeout hnil (k + 1) [.eof]
    rwa [← List.replicate_succ'] at hended
  · have hwhole := hdec last.length
    rw [List.take_length] at hwhole
    have hended := returns_ended readTimeout hnil (k + 1) []
    rw [List.append_nil] at hended
    rw [if_neg h]
    exact .cons ((recv_grow_all hdec hne hs _).trans (recv_eof_taken hwhole h rfl _)) hended

theorem map_pieces {s last : Bytes} (hsplit : s.splitOn d = (s.splitOn d).dropLast ++ [last]) :
    (pieces d s).map some =
      (s.splitOn d).dropLast.map some ++ if last = [] then [] else [some last] := by
  have hgetLast : (s.splitOn d).getLast? = some last := by rw [hsplit, List.getLast?_concat]
  by_cases h : last = []
  · rw [pieces_eq_dropLast (by rw [hgetLast, h]), if_pos h, List.append_nil]
  · rw [pieces, if_neg (by simpa [hgetLast] using h), if_neg h]
    conv_lhs => rw [hsplit]
    rw [List.map_append, List.map_singleton]

/-- The delimiter of a codec that has one. -/
def Codec.delimiter : Codec → Option UInt8
  | delimited delimiter => some delimiter
  | newline => some lf
  | netstring | contentLength => none

theorem Codec.framing_of_delimiter {c : Codec} (h : c.delimiter = some d) (w : ℕ) :
    c.framing w = Delimited d := by
  cases c with
  | delimited => exact congrArg Delimited (Option.some.inj h)
  | newline => exact congrArg Delimited (Option.some.inj h)
  | netstring | contentLength => cases h

/-- A delimited stream is read as its pieces, and every later call is at the end of the stream. -/
theorem returns_pieces (w : ℕ) (c : Codec) (d : UInt8) (hc : c.delimiter = some d) (s : Bytes)
    (chunks : List Chunk) (hs : Splits s chunks) (readTimeout : Option Duration) (k : ℕ) :
    Returns (c.framing w) (uncapped readTimeout []) (arrive chunks (List.replicate (k + 2) .eof))
      ((pieces d s).map some ++ List.replicate (k + 1) none) := by
  obtain ⟨last, hlast, hsplit, hcuts⟩ := exists_cleanCuts_splitOn d s
  obtain ⟨b, chunks', hne, hrest, -, hdel⟩ :=
    hs.delivers (f := Delimited d) Delimited.lawful hcuts readTimeout
  rw [c.framing_of_delimiter hc, map_pieces hsplit, List.append_assoc]
  exact (hdel _).returns (returns_last hlast hne hrest k)

/-- Two lines, the first one empty, and a part of a line before a half-close, in two chunks. -/
theorem returns_pieces_halfClosed :
    Returns Newline (uncapped none []) (arrive [⟨ascii "\nab", by decide⟩, ⟨ascii "c\nd", by decide⟩]
      [.eof, .eof]) [some [], some (ascii "abc"), some (ascii "d"), none] :=
  returns_pieces 64 .newline lf rfl (ascii "\nabc\nd") _ ⟨by decide, by decide⟩ none 0

end Jasonrpc
