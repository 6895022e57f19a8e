import Mathlib.Tactic.Common

/-!
# Frames between blank lines

A byte stream of lines is cut into frames at its blank lines.  A reader sees the stream in
pieces: after each piece it replaces CRLF by LF in what it has kept, takes out the complete
frames, and keeps the rest.

* `unixLines` replaces CRLF by LF, `cutBlank` finds the first blank line, and `frames` finds all
  frames and what follows the last of them.
* `wholeLineEnds` says that each CR stands before an LF, or at the end of what was read so far.
* `frames_unixLines_append` is the induction that such a reader needs: the rest that it keeps is
  as good as all that it has read.
* `rest_of_next` says what a rest can be that is not longer than the next frame with its blank
  line.

Nothing here is about a particular stream.
-/

namespace ChordV.Lib.Frames

/-- A stream of bytes. -/
abbrev Bytes := List UInt8

/-- Every CRLF becomes an LF. -/
def unixLines : Bytes → Bytes
  | [] => []
  | c :: s => if c = 13 ∧ s.head? = some 10 then unixLines s else c :: unixLines s

/-- The bytes before the first blank line, and those after it. -/
def cutBlank : Bytes → Option (Bytes × Bytes)
  | [] => none
  | c :: s =>
    if c = 10 ∧ s.head? = some 10 then some ([], s.tail)
    else (cutBlank s).map fun p => (c :: p.1, p.2)

/-- Each CR is before an LF, or it is the last byte. -/
def wholeLineEnds : Bytes → Bool
  | [] => true
  | c :: s => (c != 13 || s.head?.all (· == 10)) && wholeLineEnds s

/-! ## The first blank line -/

/-- What a cut says about the bytes, whatever follows the blank line. -/
theorem cutBlank_eq_some {s frame rest : Bytes} (h : cutBlank s = some (frame, rest)) :
    s = frame ++ 10 :: 10 :: rest ∧ ∀ z, cutBlank (frame ++ 10 :: 10 :: z) = some (frame, z) := by
  induction s generalizing frame with
  | nil => cases h
  | cons c s ih =>
    rw [cutBlank] at h
    split_ifs at h with hblank
    · obtain ⟨rfl, rfl⟩ := Prod.mk.inj (Option.some.inj h)
      obtain ⟨rfl, hhead⟩ := hblank
      obtain ⟨s, rfl⟩ := List.head?_eq_some_iff.1 hhead
      exact ⟨rfl, fun z => rfl⟩
    · obtain ⟨⟨frame', rest'⟩, hcut, heq⟩ := Option.map_eq_some_iff.1 h
      obtain ⟨rfl, rfl⟩ := Prod.mk.inj heq
      obtain ⟨rfl, hany⟩ := ih hcut
      refine ⟨rfl, fun z => ?_⟩
      have hhead : (frame' ++ 10 :: 10 :: z).head? = (frame' ++ 10 :: 10 :: rest').head? := by
        cases frame' <;> rfl
      rw [List.cons_append, cutBlank, hhead, if_neg hblank, hany z]
      rfl

/-- More bytes do not change the first frame. -/
theorem cutBlank_append {s frame rest : Bytes} (h : cutBlank s = some (frame, rest)) (t : Bytes) :
    cutBlank (s ++ t) = some (frame, rest ++ t) := by
  obtain ⟨rfl, hany⟩ := cutBlank_eq_some h
  simpa using hany (rest ++ t)

/-- Bytes without an LF are part of the first frame. -/
theorem cutBlank_of_not_mem {x : Bytes} (h : 10 ∉ x) (s : Bytes) :
    cutBlank (x ++ s) = (cutBlank s).map fun p => (x ++ p.1, p.2) := by
  induction x with
  | nil => simp
  | cons c x ih =>
    simp only [List.mem_cons, not_or] at h
    rw [List.cons_append, cutBlank, if_neg (fun hblank => h.1 hblank.1.symm), ih h.2,
      Option.map_map]
    rfl

theorem length_of_cutBlank {s frame rest : Bytes} (h : cutBlank s = some (frame, rest)) :
    rest.length < s.length := by
  rw [(cutBlank_eq_some h).1]
  simp
  omega

/-- The frames of a text, and what follows the last one. -/
def frames (s : Bytes) : List Bytes × Bytes :=
  match _h : cutBlank s with
  | some (frame, rest) => (frame :: (frames rest).1, (frames rest).2)
  | none => ([], s)
termination_by s.length
decreasing_by exact length_of_cutBlank ‹_›

theorem frames_of_some {s frame rest : Bytes} (h : cutBlank s = some (frame, rest)) :
    frames s = (frame :: (frames rest).1, (frames rest).2) := by
  rw [frames]
  split
  · rename_i heq
    obtain ⟨rfl, rfl⟩ := Prod.mk.inj (Option.some.inj (h.symm.trans heq))
    rfl
  · rename_i heq
    cases h.symm.trans heq

theorem frames_of_none {s : Bytes} (h : cutBlank s = none) : frames s = ([], s) := by
  rw [frames]
  split
  · rename_i heq
    cases h.symm.trans heq
  · rfl

/-- A text is cut into frames one after another. -/
theorem frames_induct {motive : Bytes → Prop} (none : ∀ s, cutBlank s = none → motive s)
    (some : ∀ s frame rest, cutBlank s = some (frame, rest) → motive rest → motive s)
    (s : Bytes) : motive s := by
  fun_induction frames s with
  | case1 s frame rest h ih => exact some s frame rest h ih
  | case2 s h => exact none s h

/-! ## Line ends -/

@[simp] theorem unixLines_nil : unixLines [] = [] := rfl

theorem unixLines_crlf {c : UInt8} {s : Bytes} (h : c = 13 ∧ s.head? = some 10) :
    unixLines (c :: s) = unixLines s := by
  rw [unixLines, if_pos h]

theorem unixLines_cons {c : UInt8} {s : Bytes} (h : ¬ (c = 13 ∧ s.head? = some 10)) :
    unixLines (c :: s) = c :: unixLines s := by
  rw [unixLines, if_neg h]

/-- Bytes without a CR are kept. -/
theorem unixLines_append {x : Bytes} (h : 13 ∉ x) (s : Bytes) :
    unixLines (x ++ s) = x ++ unixLines s := by
  induction x with
  | nil => rfl
  | cons c x ih =>
    simp only [List.mem_cons, not_or] at h
    rw [List.cons_append, unixLines_cons (fun hc => h.1 hc.1.symm), ih h.2, List.cons_append]

theorem wholeLineEnds_cons {c : UInt8} {s : Bytes} :
    wholeLineEnds (c :: s) = true ↔
      (c = 13 → s = [] ∨ s.head? = some 10) ∧ wholeLineEnds s = true := by
  cases s with
  | nil => simp [wholeLineEnds]
  | cons d s =>
    by_cases hc : c = 13 <;> simp [wholeLineEnds, hc]

theorem wholeLineEnds_append_of_not_mem {x : Bytes} (h : 13 ∉ x) (s : Bytes) :
    wholeLineEnds (x ++ s) = wholeLineEnds s := by
  induction x with
  | nil => rfl
  | cons c x ih =>
    simp only [List.mem_cons, not_or] at h
    simp [wholeLineEnds, Ne.symm h.1, ih h.2]

theorem wholeLineEnds_of_append {p q : Bytes} (h : wholeLineEnds (p ++ q) = true) :
    wholeLineEnds p = true := by
  induction p with
  | nil => rfl
  | cons c p ih =>
    rw [List.cons_append, wholeLineEnds_cons] at h
    refine wholeLineEnds_cons.2 ⟨fun hc => ?_, ih h.2⟩
    cases p with
    | nil => exact .inl rfl
    | cons d p =>
      obtain hnil | hhead := h.1 hc
      · cases hnil
      · exact .inr hhead

theorem wholeLineEnds_right {p q : Bytes} (h : wholeLineEnds (p ++ q) = true) :
    wholeLineEnds q = true := by
  induction p with
  | nil => exact h
  | cons c p ih => exact ih (wholeLineEnds_cons.1 h).2

/-- Where a text has whole line ends, replacing twice is replacing once. -/
theorem unixLines_unixLines_append {p q : Bytes} (h : wholeLineEnds (p ++ q) = true) :
    unixLines (unixLines p ++ q) = unixLines (p ++ q) := by
  induction p with
  | nil => rfl
  | cons c p ih =>
    rw [List.cons_append, wholeLineEnds_cons] at h
    have ih := ih h.2
    by_cases hc : c = 13
    · cases p with
      | nil => simp [unixLines]
      | cons d p =>
        obtain hnil | hhead := h.1 hc
        · cases hnil
        · -- The CR is dropped at once, or not at all.
          have hcrlf : c = 13 ∧ (d :: p).head? = some 10 := ⟨hc, hhead⟩
          rw [unixLines_crlf hcrlf, ih, List.cons_append (a := c), unixLines_crlf ⟨hc, hhead⟩]
    · rw [unixLines_cons (fun hcrlf => hc hcrlf.1), List.cons_append, List.cons_append,
        unixLines_cons (fun hcrlf => hc hcrlf.1), ih, unixLines_cons (fun hcrlf => hc hcrlf.1)]

theorem wholeLineEnds_unixLines_append {p q : Bytes} (h : wholeLineEnds (p ++ q) = true) :
    wholeLineEnds (unixLines p ++ q) = true := by
  induction p with
  | nil => exact h
  | cons c p ih =>
    rw [List.cons_append, wholeLineEnds_cons] at h
    by_cases hcrlf : c = 13 ∧ p.head? = some 10
    · rw [unixLines_crlf hcrlf]
      exact ih h.2
    · rw [unixLines_cons hcrlf, List.cons_append, wholeLineEnds_cons]
      refine ⟨fun hc => ?_, ih h.2⟩
      cases p with
      | nil => exact h.1 hc
      | cons d p =>
        obtain hnil | hhead := h.1 hc
        · cases hnil
        · exact absurd ⟨hc, hhead⟩ hcrlf

/-- The only CR that is kept is the last byte. -/
theorem not_mem_dropLast_unixLines {p : Bytes} (h : wholeLineEnds p = true) :
    13 ∉ (unixLines p).dropLast := by
  induction p with
  | nil => simp
  | cons c p ih =>
    rw [wholeLineEnds_cons] at h
    have ih := ih h.2
    by_cases hcrlf : c = 13 ∧ p.head? = some 10
    · rwa [unixLines_crlf hcrlf]
    · rw [unixLines_cons hcrlf]
      cases hp : unixLines p with
      | nil => simp
      | cons d t =>
        rw [hp] at ih
        rw [List.dropLast_cons_of_ne_nil (by simp), List.mem_cons, not_or]
        refine ⟨fun hc => ?_, ih⟩
        obtain rfl | hhead := h.1 hc.symm
        · simp at hp
        · exact hcrlf ⟨hc.symm, hhead⟩

/-! ## Reading in pieces -/

theorem not_mem_frame {frame rest : Bytes} (h : 13 ∉ (frame ++ 10 :: 10 :: rest).dropLast) :
    13 ∉ frame ∧ 13 ∉ rest.dropLast := by
  cases rest with
  | nil =>
    have hdrop : (frame ++ [10, 10]).dropLast = frame ++ [10] := by
      rw [List.dropLast_append_of_ne_nil (by simp)]
      rfl
    rw [hdrop] at h
    exact ⟨fun hmem => h (List.mem_append_left _ hmem), by simp⟩
  | cons c rest =>
    have hdrop : (10 :: 10 :: c :: rest).dropLast = 10 :: 10 :: (c :: rest).dropLast := rfl
    rw [List.dropLast_append_of_ne_nil (by simp), hdrop] at h
    exact ⟨fun hmem => h (List.mem_append_left _ hmem), fun hmem =>
      h (List.mem_append_right _ (List.mem_cons_of_mem _ (List.mem_cons_of_mem _ hmem)))⟩

/-- The frames of a text whose only CR may be its last byte, and of what follows it. -/
theorem frames_unixLines {n : Bytes} (h : 13 ∉ n.dropLast) (q : Bytes) :
    frames (unixLines (n ++ q)) =
      ((frames n).1 ++ (frames (unixLines ((frames n).2 ++ q))).1,
        (frames (unixLines ((frames n).2 ++ q))).2) := by
  induction n using frames_induct with
  | none s hnone => rw [frames_of_none hnone]; rfl
  | some s frame rest hsome ih =>
    obtain ⟨rfl, hany⟩ := cutBlank_eq_some hsome
    obtain ⟨hframe, hrest⟩ := not_mem_frame h
    have hunix : unixLines (frame ++ 10 :: 10 :: rest ++ q) =
        frame ++ 10 :: 10 :: unixLines (rest ++ q) := by
      rw [List.append_assoc, unixLines_append hframe, List.cons_append, List.cons_append,
        unixLines_cons (by simp), unixLines_cons (by simp)]
    rw [frames_of_some hsome, hunix, frames_of_some (hany _), ih hrest]
    rfl

/-- A reader that keeps the rest finds the frames of all that it has read. -/
theorem frames_unixLines_append {p q : Bytes} (h : wholeLineEnds (p ++ q) = true) :
    frames (unixLines (p ++ q)) =
      ((frames (unixLines p)).1 ++ (frames (unixLines ((frames (unixLines p)).2 ++ q))).1,
        (frames (unixLines ((frames (unixLines p)).2 ++ q))).2) := by
  rw [← unixLines_unixLines_append h]
  exact frames_unixLines (not_mem_dropLast_unixLines (wholeLineEnds_of_append h)) q

/-- The rest is the end of the text. -/
theorem exists_append_rest (s : Bytes) : ∃ front, s = front ++ (frames s).2 := by
  induction s using frames_induct with
  | none s hnone => exact ⟨[], by rw [frames_of_none hnone]; rfl⟩
  | some s frame rest hsome ih =>
    obtain ⟨front, hfront⟩ := ih
    refine ⟨frame ++ 10 :: 10 :: front, ?_⟩
    rw [frames_of_some hsome, (cutBlank_eq_some hsome).1]
    simpa using hfront

theorem length_unixLines_le (s : Bytes) : (unixLines s).length ≤ s.length := by
  induction s with
  | nil => simp
  | cons c s ih =>
    rw [unixLines]
    split
    · exact Nat.le_succ_of_le ih
    · exact Nat.succ_le_succ ih

/-- The rest has no blank line. -/
theorem cutBlank_rest (s : Bytes) : cutBlank (frames s).2 = none := by
  induction s using frames_induct with
  | none s hnone => rwa [frames_of_none hnone]
  | some s frame rest hsome ih => rwa [frames_of_some hsome]

theorem not_mem_dropLast_rest {n : Bytes} (h : 13 ∉ n.dropLast) : 13 ∉ (frames n).2.dropLast := by
  induction n using frames_induct with
  | none s hnone => rwa [frames_of_none hnone]
  | some s frame rest hsome ih =>
    rw [frames_of_some hsome]
    rw [(cutBlank_eq_some hsome).1] at h
    exact ih (not_mem_frame h).2

/-- A text without a blank line is at most one byte longer than the frame that it begins. -/
theorem prefix_or_of_cutBlank {x z frame rest : Bytes} (hx : cutBlank x = none)
    (h : cutBlank (x ++ z) = some (frame, rest)) : x <+: frame ∨ x = frame ++ [10] := by
  obtain ⟨heq, hany⟩ := cutBlank_eq_some h
  obtain ⟨t, rfl, ht⟩ | ⟨t, rfl, ht⟩ := List.append_eq_append_iff.1 heq
  · exact .inl ⟨t, rfl⟩
  · cases t with
    | nil => exact .inl ⟨[], by simp⟩
    | cons c t =>
      obtain ⟨hc, htail⟩ := List.cons.inj ht
      subst hc
      cases t with
      | nil => exact .inr rfl
      | cons d t =>
        obtain ⟨hd, -⟩ := List.cons.inj htail
        subst hd
        rw [hany t] at hx
        cases hx

/-- What was read of a frame and its blank line, if it is longer than the frame. -/
theorem rest_of_next {n q frame rest : Bytes} (hn : cutBlank n = none) (hcr : 13 ∉ n.dropLast)
    (hends : wholeLineEnds (n ++ q) = true)
    (h : cutBlank (unixLines (n ++ q)) = some (frame, rest)) (hlong : frame.length < n.length) :
    n = frame ++ [10] ∨ n = frame ++ [13] ∨ n = frame ++ [10, 13] := by
  obtain rfl | ⟨x, c, rfl⟩ := List.eq_nil_or_concat n
  · simp at hlong
  rw [List.concat_eq_append] at *
  rw [List.dropLast_concat] at hcr
  by_cases hc : c = 13
  · subst hc
    have hx : cutBlank x = none := by
      cases hcut : cutBlank x with
      | none => rfl
      | some p => cases (cutBlank_append hcut [13]).symm.trans hn
    have hq := (wholeLineEnds_cons.1 (wholeLineEnds_right (by simpa using hends : wholeLineEnds
      (x ++ (13 :: q)) = true))).1 rfl
    obtain rfl | hq := hq
    · rw [List.append_nil, unixLines_append hcr] at h
      cases h.symm.trans hn
    · obtain ⟨q, rfl⟩ := List.head?_eq_some_iff.1 hq
      rw [List.append_assoc, unixLines_append hcr] at h
      obtain hprefix | rfl := prefix_or_of_cutBlank hx h
      · have hlength : frame.length ≤ x.length := by
          rw [List.length_append, List.length_singleton] at hlong
          omega
        obtain rfl := hprefix.eq_of_length_le hlength
        exact .inr (.inl rfl)
      · exact .inr (.inr (by simp))
  · have hfree : 13 ∉ x ++ [c] := by
      simpa [List.mem_append, hcr] using fun heq => hc heq.symm
    rw [unixLines_append hfree] at h
    obtain hprefix | heq := prefix_or_of_cutBlank hn h
    · exact absurd hprefix.length_le (Nat.not_le_of_gt hlong)
    · exact .inl heq

end ChordV.Lib.Frames
