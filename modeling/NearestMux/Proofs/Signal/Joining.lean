import Mathlib.Data.List.Chain
import NearestMux.Signal.Chunk

/-!
# Joining from either end — the same row of chunks

The library joins a row of chunks from its far end (`Chunk.merged`). `Chunk.assembled` is the row as
it is put together from the near end, one chunk after the other: a chunk without bits is passed by,
one that meets the last chunk is joined with it, any other stands behind it. A joint of two slices
is cut anew out of its wire there, and would be refused if it did not lie inside.

It never is, and both ways come to the same row (`assembled_eq`). The reason is that of three chunks
which meet it does not matter which two are joined first (`exists_join?_of_join?`), so a row that is
joined already may be joined again with what follows (`merged_merged_append`).
-/

namespace NearestMux.Chunk

variable {c d e joint : Chunk} {chunks row : List Chunk}

/-! ## Joining at either end -/

theorem isMerged_iff (chunks : List Chunk) : IsMerged chunks ↔
    (∀ c ∈ chunks, c.width ≠ 0) ∧ chunks.IsChain fun c d => c.join? d = none := by
  induction chunks with
  | nil => simp [IsMerged]
  | cons c rest ih =>
    cases rest with
    | nil => simp [IsMerged]
    | cons d rest =>
      rw [IsMerged, ih, List.isChain_cons_cons, List.forall_mem_cons (a := c)]
      tauto

theorem merged_cons (c : Chunk) (rest : List Chunk) :
    merged (c :: rest) = prepend c (merged rest) := rfl

theorem merged_eq_self (h : IsMerged chunks) : merged chunks = chunks := by
  induction chunks with
  | nil => rfl
  | cons c rest ih =>
    rw [merged_cons, ih h.tail]
    cases rest with
    | nil => rw [prepend, if_neg h.head]
    | cons d rest => rw [prepend, if_neg h.head, h.2.1]

/-- What comes before a joint does not meet it unless it meets its first part. -/
theorem join?_eq_none_of_join? (h : c.join? d = some joint) (apart : e.join? c = none) :
    e.join? joint = none := by
  cases c with
  | const low =>
    cases d with
    | const high =>
      cases h
      cases e with
      | const bits => cases apart
      | slice => rfl
    | slice => cases h
  | slice wire offset width inside =>
    cases d with
    | const high => cases h
    | slice wire' offset' width' inside' =>
      simp only [join?] at h
      split at h
      · cases h
        cases e with
        | const bits => rfl
        | slice wire'' offset'' width'' inside'' =>
          simp only [join?, dite_eq_right_iff, reduceCtorEq, imp_false] at apart ⊢
          exact apart
      · cases h

/-- Of three chunks that meet it does not matter which two are joined first. -/
theorem exists_join?_of_join? {high : Chunk} (first : c.join? d = some joint)
    (second : d.join? e = some high) :
    ∃ whole, joint.join? e = some whole ∧ c.join? high = some whole := by
  cases d with
  | const mid =>
    cases c with
    | const low =>
      cases e with
      | const bits =>
        cases first
        cases second
        exact ⟨.const (low ++ mid ++ bits), rfl, by rw [List.append_assoc]; rfl⟩
      | slice => cases second
    | slice => cases first
  | slice wire offset width inside =>
    cases c with
    | const low => cases first
    | slice wire₀ offset₀ width₀ inside₀ =>
      cases e with
      | const bits => cases second
      | slice wire₁ offset₁ width₁ inside₁ =>
        simp only [join?] at first second
        split at first
        · next before =>
          split at second
          · next after =>
            obtain ⟨rfl, rfl⟩ := before
            obtain ⟨rfl, rfl⟩ := after
            cases first
            cases second
            refine ⟨.slice wire₀ offset₀ (width₀ + (width + width₁)) (by omega), ?_, ?_⟩
            · simp [join?, Nat.add_assoc]
            · simp [join?]
          · cases second
        · cases first

theorem prepend_of_width_eq_zero (hc : c.width = 0) (chunks : List Chunk) :
    prepend c chunks = chunks := by
  cases chunks <;> rw [prepend, if_pos hc]

theorem prepend_of_join? (hc : c.width ≠ 0) (h : c.join? d = some joint) (rest : List Chunk) :
    prepend c (d :: rest) = joint :: rest := by
  rw [prepend, if_neg hc, h]

theorem prepend_of_apart (hc : c.width ≠ 0) (h : c.join? d = none) (rest : List Chunk) :
    prepend c (d :: rest) = c :: d :: rest := by
  rw [prepend, if_neg hc, h]

theorem prepend_joint (hc : c.width ≠ 0) (hd : d.width ≠ 0) (h : c.join? d = some joint)
    (chunks : List Chunk) : prepend joint chunks = prepend c (prepend d chunks) := by
  have hj : joint.width ≠ 0 := by
    rw [width_join h]
    omega
  cases chunks with
  | nil => rw [prepend, prepend, if_neg hj, if_neg hd, prepend_of_join? hc h]
  | cons e rest =>
    cases meets : d.join? e with
    | none =>
      rw [prepend_of_apart hd meets, prepend_of_join? hc h,
        prepend_of_apart hj (join?_of_join? h e meets)]
    | some high =>
      obtain ⟨whole, left, right⟩ := exists_join?_of_join? h meets
      rw [prepend_of_join? hd meets, prepend_of_join? hj left, prepend_of_join? hc right]

theorem foldr_prepend_prepend (h : IsMerged chunks) (c : Chunk) (others : List Chunk) :
    (prepend c chunks).foldr prepend others = prepend c (chunks.foldr prepend others) := by
  by_cases hc : c.width = 0
  · rw [prepend_of_width_eq_zero hc, prepend_of_width_eq_zero hc]
  · cases chunks with
    | nil => rw [prepend, if_neg hc, List.foldr_cons]
    | cons d rest =>
      cases meets : c.join? d with
      | none => rw [prepend_of_apart hc meets, List.foldr_cons]
      | some joint =>
        rw [prepend_of_join? hc meets, List.foldr_cons, List.foldr_cons]
        exact prepend_joint hc h.head meets _

/-- What is joined already may be joined again with what follows. -/
theorem merged_merged_append (chunks others : List Chunk) :
    merged (merged chunks ++ others) = merged (chunks ++ others) := by
  simp only [merged, List.foldr_append]
  induction chunks with
  | nil => rfl
  | cons c rest ih =>
    rw [List.foldr_cons, List.foldr_cons, ← ih]
    exact foldr_prepend_prepend (isMerged_merged rest) c _

/-! ## Assembling from the near end -/

/-- The joint of two chunks when it is cut anew, and refused if it does not lie inside its wire. -/
def rejoin : Chunk → Chunk → Except OutOfRange (Option Chunk)
  | .const low, .const high => .ok (some (.const (low ++ high)))
  | .slice wire offset width _, .slice wire' offset' width' _ =>
    if wire = wire' ∧ offset + width = offset' then
      (cut wire offset (some (width + width' : Nat))).map some
    else .ok none
  | _, _ => .ok none

/-- Takes a chunk in behind a row that has its last chunk in front. -/
def takeIn (row : List Chunk) (c : Chunk) : Except OutOfRange (List Chunk) :=
  if c.width = 0 then .ok row
  else match row with
    | [] => .ok [c]
    | last :: rest => match rejoin last c with
      | .ok (some joint) => .ok (joint :: rest)
      | .ok none => .ok (c :: last :: rest)
      | .error fault => .error fault

/-- The row that chunks make when they are taken in one after the other. -/
def assembled (chunks : List Chunk) : Except OutOfRange (List Chunk) :=
  (chunks.foldlM takeIn []).map List.reverse

/-- A joint is never refused. -/
theorem rejoin_eq (c d : Chunk) : c.rejoin d = .ok (c.join? d) := by
  cases c with
  | const low => cases d <;> rfl
  | slice wire offset width inside =>
    cases d with
    | const high => rfl
    | slice wire' offset' width' inside' =>
      by_cases meets : wire = wire' ∧ offset + width = offset'
      · obtain ⟨rfl, rfl⟩ := meets
        have fits : 0 ≤ (offset : Int) ∧ 0 ≤ ((width + width' : Nat) : Int) ∧
            (offset : Int) + (width + width' : Nat) ≤ wire.width := by omega
        simp only [rejoin, join?, cut, Option.getD_some, dif_pos fits, Int.toNat_natCast, and_self,
          if_true, dif_pos]
        rfl
      · simp only [rejoin, join?, if_neg meets, dif_neg meets]

theorem isMerged_append_pair (h : IsMerged (chunks ++ [d])) (hc : c.width ≠ 0)
    (apart : d.join? c = none) : IsMerged (chunks ++ [d] ++ [c]) := by
  rw [isMerged_iff] at h ⊢
  refine ⟨?_, List.isChain_append.mpr ⟨h.2, List.isChain_singleton c, ?_⟩⟩
  · intro b hb
    rcases List.mem_append.mp hb with hb | hb
    · exact h.1 b hb
    · rwa [List.mem_singleton.mp hb]
  · intro x hx y hy
    rw [List.getLast?_concat, Option.mem_some_iff] at hx
    rw [List.head?_cons, Option.mem_some_iff] at hy
    rwa [← hx, ← hy]

theorem isMerged_append_joint (h : IsMerged (chunks ++ [d])) (meets : d.join? c = some joint) :
    IsMerged (chunks ++ [joint]) := by
  rw [isMerged_iff] at h ⊢
  have hd : d.width ≠ 0 := h.1 d (List.mem_append_right _ (List.mem_singleton_self d))
  obtain ⟨before, -, apart⟩ := List.isChain_append.mp h.2
  refine ⟨?_, List.isChain_append.mpr ⟨before, List.isChain_singleton joint, ?_⟩⟩
  · intro b hb
    rcases List.mem_append.mp hb with hb | hb
    · exact h.1 b (List.mem_append_left _ hb)
    · rw [List.mem_singleton.mp hb, width_join meets]
      omega
  · intro x hx y hy
    rw [List.head?_cons, Option.mem_some_iff] at hy
    rw [← hy]
    exact join?_eq_none_of_join? meets (apart x hx d rfl)

/-- Taking in a chunk is never refused, and joins what is to be joined. -/
theorem takeIn_reverse (h : IsMerged row.reverse) (c : Chunk) :
    ∃ row', takeIn row c = .ok row' ∧ row'.reverse = merged (row.reverse ++ [c]) := by
  by_cases hc : c.width = 0
  · refine ⟨row, by simp only [takeIn, if_pos hc], ?_⟩
    rw [merged, List.foldr_append, List.foldr_cons, List.foldr_nil, prepend_of_width_eq_zero hc]
    exact (merged_eq_self h).symm
  · cases row with
    | nil =>
      have alone : IsMerged [c] := hc
      exact ⟨[c], by simp only [takeIn, if_neg hc], (merged_eq_self alone).symm⟩
    | cons last rest =>
      rw [List.reverse_cons] at h
      cases meets : last.join? c with
      | none =>
        refine ⟨c :: last :: rest, by simp only [takeIn, if_neg hc, rejoin_eq, meets], ?_⟩
        rw [List.reverse_cons, List.reverse_cons]
        exact (merged_eq_self (isMerged_append_pair h hc meets)).symm
      | some joint =>
        refine ⟨joint :: rest, by simp only [takeIn, if_neg hc, rejoin_eq, meets], ?_⟩
        have hlast : last.width ≠ 0 :=
          ((isMerged_iff _).mp h).1 last (List.mem_append_right _ (List.mem_singleton_self last))
        have hjoint := isMerged_append_joint h meets
        calc (joint :: rest).reverse = merged (rest.reverse ++ [joint]) := by
              rw [List.reverse_cons, merged_eq_self hjoint]
          _ = rest.reverse.foldr prepend (merged [joint]) := List.foldr_append
          _ = rest.reverse.foldr prepend (merged [last, c]) := by
              rw [merged_cons, merged_cons, merged_cons]
              exact congrArg (rest.reverse.foldr prepend) (prepend_joint hlast hc meets [])
          _ = merged ((last :: rest).reverse ++ [c]) := by
              rw [List.reverse_cons, List.append_assoc]
              exact List.foldr_append.symm

theorem foldlM_takeIn (h : IsMerged row.reverse) (chunks : List Chunk) :
    ∃ row', chunks.foldlM takeIn row = .ok row' ∧
      row'.reverse = merged (row.reverse ++ chunks) := by
  induction chunks generalizing row with
  | nil => exact ⟨row, rfl, by rw [List.append_nil, merged_eq_self h]⟩
  | cons c rest ih =>
    obtain ⟨row', taken, joined⟩ := takeIn_reverse h c
    obtain ⟨row'', goesOn, all⟩ := ih (joined ▸ isMerged_merged _)
    refine ⟨row'', ?_, ?_⟩
    · rw [List.foldlM_cons, taken]
      exact goesOn
    · rw [all, joined, merged_merged_append, List.append_assoc, List.singleton_append]

/-- Put together from the near end, with every joint cut anew, a row is refused nothing and comes to
what joining from the far end makes of it. -/
theorem assembled_eq (chunks : List Chunk) : assembled chunks = .ok (merged chunks) := by
  have start : IsMerged ([] : List Chunk).reverse := trivial
  obtain ⟨row, taken, joined⟩ := foldlM_takeIn start chunks
  rw [assembled, taken]
  exact congrArg Except.ok joined

end NearestMux.Chunk
