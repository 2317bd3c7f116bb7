import Mathlib.Data.List.Basic

/-! Texts with numbered holes. A hole is spelled by a mark and a tail without the mark. Filling
the holes of one number changes the text unless each of them was spelled like the filling. -/
namespace Template

variable {α : Type*}

inductive Piece (α : Type*) where
  | char (c : α)
  | hole (number : ℕ) (spelling : List α)
deriving DecidableEq

def Piece.spell : Piece α → List α
  | .char c => [c]
  | .hole _ spelling => spelling

def Piece.fill (n : ℕ) (filling : List α) : Piece α → List α
  | .char c => [c]
  | .hole number spelling => if number = n then filling else spelling

/-- The text as it was written. -/
def spell (ps : List (Piece α)) : List α := ps.flatMap Piece.spell

/-- The text with every hole of number `n` replaced. -/
def fill (n : ℕ) (filling : List α) (ps : List (Piece α)) : List α :=
  ps.flatMap (Piece.fill n filling)

@[simp] theorem spell_nil : spell ([] : List (Piece α)) = [] := rfl

@[simp] theorem spell_cons (p : Piece α) (ps : List (Piece α)) :
    spell (p :: ps) = p.spell ++ spell ps := rfl

@[simp] theorem fill_nil (n : ℕ) (v : List α) : fill n v ([] : List (Piece α)) = [] := rfl

@[simp] theorem fill_cons (n : ℕ) (v : List α) (p : Piece α) (ps : List (Piece α)) :
    fill n v (p :: ps) = p.fill n v ++ fill n v ps := rfl

theorem fill_append (n : ℕ) (v : List α) (ps qs : List (Piece α)) :
    fill n v (ps ++ qs) = fill n v ps ++ fill n v qs :=
  List.flatMap_append

theorem spell_append (ps qs : List (Piece α)) : spell (ps ++ qs) = spell ps ++ spell qs :=
  List.flatMap_append

theorem fill_singleton (n : ℕ) (v : List α) (p : Piece α) : fill n v [p] = p.fill n v :=
  List.append_nil _

theorem spell_singleton (p : Piece α) : spell [p] = p.spell := List.append_nil _

/-- Every hole is spelled by one mark and a tail without it. -/
def Marked (mark : α) (ps : List (Piece α)) : Prop :=
  ∀ n t, Piece.hole n t ∈ ps → ∃ tail, t = mark :: tail ∧ mark ∉ tail

theorem Marked.tail {mark : α} {p : Piece α} {ps : List (Piece α)} (h : Marked mark (p :: ps)) :
    Marked mark ps :=
  fun n t hm => h n t (List.mem_cons_of_mem p hm)

theorem mem_fill {n : ℕ} {v : List α} {ps : List (Piece α)} {c : α} (h : c ∈ fill n v ps) :
    c ∈ v ∨ c ∈ spell ps := by
  obtain ⟨p, hp, hc⟩ := List.mem_flatMap.mp h
  cases p with
  | char d => exact Or.inr (List.mem_flatMap.mpr ⟨_, hp, hc⟩)
  | hole number t =>
    simp only [Piece.fill] at hc
    split_ifs at hc
    · exact Or.inl hc
    · exact Or.inr (List.mem_flatMap.mpr ⟨_, hp, hc⟩)

/-- Holes that are spelled like the filling are not changed. -/
theorem fill_eq_spell {n : ℕ} {v : List α} {ps : List (Piece α)}
    (h : ∀ t, Piece.hole n t ∈ ps → t = v) : fill n v ps = spell ps := by
  apply List.flatMap_congr
  intro p hp
  cases p with
  | char c => rfl
  | hole number t =>
    simp only [Piece.fill, Piece.spell]
    split_ifs with hn
    · exact (h t (hn ▸ hp)).symm
    · rfl

/-- A filled text starts like the filling or like the text. -/
theorem head?_fill {mark : α} {n : ℕ} {v : List α} {ps : List (Piece α)} (hps : Marked mark ps)
    (hv : v ≠ []) : (fill n v ps).head? = v.head? ∨ (fill n v ps).head? = (spell ps).head? := by
  cases ps with
  | nil => exact Or.inr rfl
  | cons q ps =>
    cases q with
    | char c => exact Or.inr rfl
    | hole number t =>
      obtain ⟨tail, rfl, -⟩ := hps number t List.mem_cons_self
      simp only [fill_cons, spell_cons, Piece.fill, Piece.spell]
      split_ifs
      · exact Or.inl (List.head?_append_of_ne_nil v hv)
      · exact Or.inr rfl

/-- A filled text ends like the filling or like the text. -/
theorem getLast?_fill {mark : α} {n : ℕ} {v : List α} {ps : List (Piece α)} (hps : Marked mark ps)
    (hv : v ≠ []) :
    (fill n v ps).getLast? = v.getLast? ∨ (fill n v ps).getLast? = (spell ps).getLast? := by
  rcases List.eq_nil_or_concat ps with rfl | ⟨ps, q, rfl⟩
  · exact Or.inr rfl
  · rw [List.concat_eq_append] at hps ⊢
    rw [fill_append, spell_append, fill_singleton, spell_singleton]
    cases q with
    | char c =>
      apply Or.inr
      simp [Piece.fill, Piece.spell]
    | hole number t =>
      obtain ⟨tail, rfl, -⟩ := hps number t (List.mem_append_right _ List.mem_cons_self)
      simp only [Piece.fill, Piece.spell]
      split_ifs
      · exact Or.inl (List.getLast?_append_of_ne_nil _ hv)
      · apply Or.inr
        rw [List.getLast?_append_of_ne_nil _ (List.cons_ne_nil _ _),
          List.getLast?_append_of_ne_nil _ (List.cons_ne_nil _ _)]

/-- A word that does not contain the mark cannot shift a text past the next mark. -/
theorem append_ne_of_mark {mark : α} {x : List α} (hx : x ≠ []) (hmark : mark ∉ x)
    (p A B : List α) : x ++ (p ++ A) ≠ p ++ mark :: B := by
  induction hn : p.length using Nat.strongRecOn generalizing p with
  | ind n ih =>
    intro h
    rcases List.append_eq_append_iff.mp h with ⟨q, hq, hA⟩ | ⟨q, hq, hB⟩
    · have hlen : q.length < n := by
        have := List.length_pos_of_ne_nil hx
        rw [← hn, hq, List.length_append]
        omega
      rw [hq, List.append_assoc] at hA
      exact ih q.length hlen q rfl hA
    · cases q with
      | nil =>
        rw [List.append_nil] at hq
        obtain ⟨c, y, rfl⟩ := List.exists_cons_of_ne_nil hx
        rw [← hq] at hB
        obtain ⟨rfl, -⟩ := List.cons_eq_cons.mp hB
        exact hmark List.mem_cons_self
      | cons c q =>
        obtain ⟨rfl, -⟩ := List.cons_eq_cons.mp hB
        apply hmark
        rw [hq]
        exact List.mem_append_right p List.mem_cons_self

section Converse

variable {mark : α} {n : ℕ} {v : List α} {ps : List (Piece α)}

/-- A filled text is no shift of the text by a word without the mark, in either direction. -/
theorem fill_shift_ne (hps : Marked mark ps) {w : List α} (hv : v = mark :: w) {x : List α}
    (hx : x ≠ []) (hmark : mark ∉ x) (p : List α) :
    x ++ (p ++ fill n v ps) ≠ p ++ spell ps ∧ x ++ (p ++ spell ps) ≠ p ++ fill n v ps := by
  have hpos := List.length_pos_of_ne_nil hx
  induction ps generalizing p with
  | nil =>
    constructor
    · intro h
      have := congrArg List.length h
      simp only [fill_nil, spell_nil, List.length_append] at this
      omega
    · intro h
      have := congrArg List.length h
      simp only [fill_nil, spell_nil, List.length_append] at this
      omega
  | cons q ps ih =>
    cases q with
    | char c =>
      have := ih hps.tail (p ++ [c])
      simpa [Piece.fill, Piece.spell] using this
    | hole number t =>
      obtain ⟨tail, ht, -⟩ := hps number t List.mem_cons_self
      by_cases hn : number = n
      · simp only [fill_cons, spell_cons, Piece.fill, Piece.spell, if_pos hn]
        constructor
        · rw [ht]
          exact append_ne_of_mark hx hmark p _ _
        · rw [hv]
          exact append_ne_of_mark hx hmark p _ _
      · have := ih hps.tail (p ++ t)
        simpa [Piece.fill, Piece.spell, hn] using this

variable [DecidableEq α]

theorem count_hole {t tail : List α} (ht : t = mark :: tail) (htail : mark ∉ tail) :
    t.count mark = 1 := by
  rw [ht, List.count_cons_self, List.count_eq_zero.mpr htail]

/-- Each hole holds one mark, so its filling changes the number of marks by that of `v`. -/
theorem count_fill (hps : Marked mark ps) : ∃ k, (k = 0 → ∀ t, Piece.hole n t ∉ ps) ∧
    (fill n v ps).count mark + k = (spell ps).count mark + k * v.count mark := by
  induction ps with
  | nil => exact ⟨0, fun _ t h => List.not_mem_nil h, by simp⟩
  | cons q ps ih =>
    obtain ⟨k, hk, hcount⟩ := ih hps.tail
    cases q with
    | char c =>
      refine ⟨k, fun h0 t ht => ?_, ?_⟩
      · rcases List.mem_cons.mp ht with h | h
        · cases h
        · exact hk h0 t h
      · simp only [fill_cons, spell_cons, Piece.fill, Piece.spell, List.count_append]
        omega
    | hole number t =>
      obtain ⟨tail, ht, htail⟩ := hps number t List.mem_cons_self
      have hone := count_hole ht htail
      by_cases hn : number = n
      · refine ⟨k + 1, fun h0 => absurd h0 k.succ_ne_zero, ?_⟩
        simp only [fill_cons, spell_cons, Piece.fill, Piece.spell, if_pos hn, List.count_append,
          hone, Nat.add_mul]
        omega
      · refine ⟨k, fun h0 t' ht' => ?_, ?_⟩
        · rcases List.mem_cons.mp ht' with h | h
          · injection h with h
            exact hn h.symm
          · exact hk h0 t' h
        · simp only [fill_cons, spell_cons, Piece.fill, Piece.spell, if_neg hn, List.count_append]
          omega

theorem count_filling (hps : Marked mark ps)
    (h : (fill n v ps).count mark = (spell ps).count mark) {t : List α}
    (ht : Piece.hole n t ∈ ps) : v.count mark = 1 := by
  obtain ⟨k, hk, hcount⟩ := count_fill (n := n) (v := v) hps
  have hpos : 0 < k := Nat.pos_of_ne_zero fun h0 => hk h0 t ht
  rw [h] at hcount
  have hmul : k * v.count mark = k * 1 := by omega
  exact Nat.eq_of_mul_eq_mul_left hpos hmul

/-- What a word with one mark lacks of a longer word with one mark holds no mark. -/
theorem notMem_of_count {u x : List α} (hu : u.count mark = 1)
    (hx : (u ++ x).count mark = 1) : mark ∉ x := by
  rw [List.count_append, hu] at hx
  exact List.count_eq_zero.mp (by omega)

/-- A leading hole whose filling does not show is spelled like it, and the rest agrees too. -/
theorem leading_hole {u : List α} (hps : Marked mark ps)
    (hu : ∃ tail, u = mark :: tail ∧ mark ∉ tail) (hv : v.count mark = 1)
    (h : v ++ fill n v ps = u ++ spell ps) :
    u = v ∧ fill n v ps = spell ps := by
  obtain ⟨tail, hu, hnot⟩ := hu
  have hone := count_hole hu hnot
  obtain ⟨w, hw⟩ : ∃ w, v = mark :: w := by
    cases v with
    | nil => cases hv
    | cons c w =>
      rw [hu, List.cons_append, List.cons_append, List.cons.injEq] at h
      exact ⟨w, by rw [h.1]⟩
  -- What one of the two words lacks of the other is empty, or a shift of the rest.
  rcases List.append_eq_append_iff.mp h with ⟨x, hx, hrest⟩ | ⟨x, hx, hrest⟩
  · by_cases hnil : x = []
    · rw [hnil, List.append_nil] at hx
      rw [hnil, List.nil_append] at hrest
      exact ⟨hx, hrest⟩
    · have hmark := notMem_of_count hv (hx ▸ hone)
      exact absurd hrest.symm (fill_shift_ne hps hw hnil hmark []).2
  · by_cases hnil : x = []
    · rw [hnil, List.append_nil] at hx
      rw [hnil, List.nil_append] at hrest
      exact ⟨hx.symm, hrest.symm⟩
    · have hmark := notMem_of_count hone (hx ▸ hv)
      exact absurd hrest.symm (fill_shift_ne hps hw hnil hmark []).1

theorem spelling_of_count (hv : v.count mark = 1) (hps : Marked mark ps)
    (h : fill n v ps = spell ps) (t : List α) (ht : Piece.hole n t ∈ ps) : t = v := by
  induction ps with
  | nil => cases ht
  | cons q ps ih =>
    cases q with
    | char c =>
      have htail : fill n v ps = spell ps := (List.append_right_inj [c]).mp h
      rcases List.mem_cons.mp ht with ht | ht
      · cases ht
      · exact ih hps.tail htail ht
    | hole number s =>
      by_cases hn : number = n
      · simp only [fill_cons, spell_cons, Piece.fill, Piece.spell, if_pos hn] at h
        obtain ⟨hs, htail⟩ := leading_hole hps.tail (hps number s List.mem_cons_self) hv h
        rcases List.mem_cons.mp ht with ht | ht
        · injection ht with _ ht
          rw [ht, hs]
        · exact ih hps.tail htail ht
      · simp only [fill_cons, spell_cons, Piece.fill, Piece.spell, if_neg hn] at h
        have htail := List.append_cancel_left h
        rcases List.mem_cons.mp ht with ht | ht
        · injection ht with ht
          exact absurd ht.symm hn
        · exact ih hps.tail htail ht

/-- A text that the filling leaves as it was has only holes spelled like the filling. -/
theorem spelling_of_fill_eq_spell (hps : Marked mark ps) (h : fill n v ps = spell ps) :
    ∀ t, Piece.hole n t ∈ ps → t = v := by
  intro t ht
  have hcount : (fill n v ps).count mark = (spell ps).count mark := by rw [h]
  exact spelling_of_count (count_filling hps hcount ht) hps h t ht

end Converse

end Template
