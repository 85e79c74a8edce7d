import LanguageServer.Scheduling.Actor

/-!
# The order of versions

Versions are ordered, and the absence of a version comes before all of them.

* `versionLt`, `laterVersion`: a linear order and its maximum;
* `HasReached`: a version is there, and it is not older than another.
-/

namespace LanguageServer

/-- There is a version, and it is at least `v`. -/
def HasReached (version : Option Int) (v : Int) : Prop := ∃ c, version = some c ∧ v ≤ c

theorem hasReached_iff {version : Option Int} {v : Int} :
    HasReached version v ↔ versionLt version (some v) = false := by
  cases version <;> simp [HasReached, versionLt]

@[simp] theorem hasReached_some {c v : Int} : HasReached (some c) v ↔ v ≤ c := by
  simp [HasReached]

@[simp] theorem versionLt_self (a : Option Int) : versionLt a a = false := by
  cases a <;> simp [versionLt]

theorem versionLt_trans_false {a b c : Option Int} (hab : versionLt a b = false)
    (hbc : versionLt b c = false) : versionLt a c = false := by
  cases a <;> cases b <;> cases c <;> simp_all [versionLt]
  omega

theorem versionLt_asymm {a b : Option Int} (h : versionLt a b = true) : versionLt b a = false := by
  cases a <;> cases b <;> simp_all [versionLt]
  omega

theorem HasReached.of_le {a b : Option Int} {v : Int} (h : HasReached a v)
    (hab : versionLt b a = false) : HasReached b v :=
  hasReached_iff.2 (versionLt_trans_false hab (hasReached_iff.1 h))

theorem HasReached.mono {a : Option Int} {v w : Int} (h : HasReached a v) (hw : w ≤ v) :
    HasReached a w := by
  obtain ⟨c, rfl, hc⟩ := h
  exact ⟨c, rfl, by omega⟩

theorem versionLt_trans {a b c : Option Int} (hab : versionLt a b = true)
    (hbc : versionLt b c = true) : versionLt a c = true := by
  cases a <;> cases b <;> cases c <;> simp_all [versionLt]
  omega

theorem versionLt_of_not_lt_of_lt {a b c : Option Int} (hab : versionLt b a = false)
    (hbc : versionLt b c = true) : versionLt a c = true := by
  cases a <;> cases b <;> cases c <;> simp_all [versionLt]
  omega

theorem not_hasReached_iff {version : Option Int} {v : Int} :
    ¬ HasReached version v ↔ versionLt version (some v) = true := by
  rw [hasReached_iff, Bool.not_eq_false]

/-! ### The later of two versions -/

theorem laterVersion_not_lt_left (a b : Option Int) : versionLt (laterVersion a b) a = false := by
  unfold laterVersion
  split
  · next h => exact versionLt_asymm h
  · exact versionLt_self a

theorem laterVersion_not_lt_right (a b : Option Int) : versionLt (laterVersion a b) b = false := by
  unfold laterVersion
  split
  · exact versionLt_self b
  · next h => simpa using h

/-- What is newer than the later of two versions is newer than both. -/
theorem versionLt_of_later {a b c : Option Int} (h : versionLt (laterVersion a b) c = true) :
    versionLt a c = true ∧ versionLt b c = true := by
  have left : versionLt a c ≠ false := fun hac => by
    simp [versionLt_trans_false (laterVersion_not_lt_left a b) hac] at h
  have right : versionLt b c ≠ false := fun hbc => by
    simp [versionLt_trans_false (laterVersion_not_lt_right a b) hbc] at h
  exact ⟨by simpa using left, by simpa using right⟩

theorem laterVersion_eq (a b : Option Int) : laterVersion a b = a ∨ laterVersion a b = b := by
  unfold laterVersion
  split
  · exact Or.inr rfl
  · exact Or.inl rfl

@[simp] theorem laterVersion_none (a : Option Int) : laterVersion a none = a := by
  cases a <;> rfl

theorem HasReached.later_left {a : Option Int} {v : Int} (h : HasReached a v) (b : Option Int) :
    HasReached (laterVersion a b) v := h.of_le (laterVersion_not_lt_left a b)

theorem HasReached.later_right {b : Option Int} {v : Int} (h : HasReached b v) (a : Option Int) :
    HasReached (laterVersion a b) v := h.of_le (laterVersion_not_lt_right a b)

/-- If `b` is not newer than `a`, then what the later of both has reached `a` has reached. -/
theorem HasReached.of_later {a b : Option Int} {v : Int} (h : HasReached (laterVersion b a) v)
    (hab : versionLt a b = false) : HasReached a v := by
  rcases laterVersion_eq b a with he | he
  · exact (he ▸ h).of_le hab
  · exact he ▸ h

end LanguageServer
