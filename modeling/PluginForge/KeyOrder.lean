namespace PluginForge

/-- The order in which a table keeps keys of a type. -/
class KeyOrder (κ : Type) where
  before : κ → κ → Bool
  irrefl (a : κ) : ¬ before a a
  trans {a b c : κ} : before a b → before b c → before a c
  total {a b : κ} : a ≠ b → ¬ before a b → before b a

namespace KeyOrder

instance : KeyOrder Char where
  before a b := a.toNat < b.toNat
  irrefl a := by simp
  trans h k := by
    rw [decide_eq_true_eq] at h k ⊢
    exact Nat.lt_trans h k
  total {a b} hne h := by
    have : a.toNat ≠ b.toNat := fun he => hne (Char.toNat_inj.1 he)
    rw [decide_eq_true_eq] at h ⊢
    omega

variable {κ : Type} [DecidableEq κ] [KeyOrder κ]

/-- The order of words whose letters are in order: the first difference decides, and a word comes before
those that it begins. -/
def beforeWord : List κ → List κ → Bool
  | _, [] => false
  | [], _ :: _ => true
  | a :: as, b :: bs => if a = b then beforeWord as bs else before a b

theorem beforeWord_cons (a b : κ) (as bs : List κ) :
    beforeWord (a :: as) (b :: bs) = if a = b then beforeWord as bs else before a b :=
  rfl

theorem beforeWord_irrefl (as : List κ) : ¬ beforeWord as as := by
  induction as with
  | nil => simp [beforeWord]
  | cons a as ih => rwa [beforeWord_cons, if_pos rfl]

theorem beforeWord_trans {as bs cs : List κ} (h : beforeWord as bs) (k : beforeWord bs cs) :
    beforeWord as cs := by
  induction as generalizing bs cs with
  | nil =>
    cases cs with
    | nil => cases bs <;> exact k
    | cons c cs => rfl
  | cons a as ih =>
    cases bs with
    | nil => simp [beforeWord] at h
    | cons b bs =>
      cases cs with
      | nil => simp [beforeWord] at k
      | cons c cs =>
        rw [beforeWord_cons] at h k ⊢
        by_cases hab : a = b
        · subst hab
          rw [if_pos rfl] at h
          by_cases hac : a = c
          · rw [if_pos hac] at k ⊢
            exact ih h k
          · rwa [if_neg hac] at k ⊢
        · rw [if_neg hab] at h
          by_cases hbc : b = c
          · subst hbc
            rwa [if_neg hab]
          · rw [if_neg hbc] at k
            have hac : a ≠ c := by
              rintro rfl
              exact irrefl a (trans h k)
            rw [if_neg hac]
            exact trans h k

theorem beforeWord_total {as bs : List κ} (hne : as ≠ bs) (h : ¬ beforeWord as bs) :
    beforeWord bs as := by
  induction as generalizing bs with
  | nil =>
    cases bs with
    | nil => exact absurd rfl hne
    | cons b bs => exact absurd rfl h
  | cons a as ih =>
    cases bs with
    | nil => rfl
    | cons b bs =>
      rw [beforeWord_cons] at h ⊢
      by_cases hab : a = b
      · subst hab
        rw [if_pos rfl] at h ⊢
        exact ih (fun he => hne (he ▸ rfl)) h
      · rw [if_neg hab] at h
        rw [if_neg (Ne.symm hab)]
        exact total hab h

instance : KeyOrder (List κ) where
  before := beforeWord
  irrefl := beforeWord_irrefl
  trans := beforeWord_trans
  total := beforeWord_total

theorem before_append (above as bs : List κ) : before (above ++ as) (above ++ bs) = before as bs := by
  induction above with
  | nil => rfl
  | cons a above ih => exact (beforeWord_cons a a _ _).trans ((if_pos rfl).trans ih)

theorem before_cons_of_before {a b : κ} (h : before a b) (as bs : List κ) :
    before (a :: as) (b :: bs) := by
  have hne : a ≠ b := by
    rintro rfl
    exact irrefl a h
  replace h : (if a = b then beforeWord as bs else before a b) = true := by rwa [if_neg hne]
  exact h

end KeyOrder

end PluginForge
