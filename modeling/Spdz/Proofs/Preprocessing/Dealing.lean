import Spdz.Preprocessing.Dealer
import Spdz.Proofs.Random.Drawn
import Spdz.Proofs.Sharing

/-!
# Items dealt to all parties

Every party simulates the dealing of all, and keeps its own shares.  Whose shares are kept makes no
difference to what is read from the source, so the parties stay in step, and their shares of one
item fit together.

* `Item.Plain`, `IsDealt` — an item in plain, and the shares of it that the parties hold.
* `Dealing.share_spec`, `Dealing.authenticate_spec` — splitting a value among the parties.
* **`Dealing.deal_spec`** — what the parties deal for themselves is an item dealt to all of them.
-/

namespace Spdz

variable {F : FieldSpec} {γ : Type} [WordSource γ] {n : Nat} {key : Elem F}

/-! ## Items in plain -/

/-- What an item is in plain: the two factors of a triple, the value of a mask or an element, whether
a bit is set, and the element whose powers a pipe has. -/
abbrev Item.Plain (F : FieldSpec) : Item → Type
  | triple => Elem F × Elem F
  | mask _ => Elem F
  | element => Elem F
  | bit => Bool
  | pipe => Elem F

/-- The shares of an item that all parties hold, and its value in plain. -/
def IsDealt (n : Nat) (key : Elem F) (length : Nat) :
    (item : Item) → item.Plain F → (PartyId → item.Value F) → Prop
  | .triple, (a, b), d => IsSharing n key (fun i => (d i).a) a ∧
      IsSharing n key (fun i => (d i).b) b ∧ IsSharing n key (fun i => (d i).c) (a * b)
  | .mask toward, v, d => IsSharing n key (fun i => (d i).mask) v ∧
      ∀ i, (d i).real = if toward = i then some v else none
  | .element, v, d => IsSharing n key d v
  | .bit, isOne, d => IsSharing n key d (if isOne then 1 else 0)
  | .pipe, r, d => r ≠ 0 ∧ (∀ i, (d i).length = length) ∧
      ∀ k < length, IsSharing n key (fun i => (d i).getD k 0) ((Dealing.pipeValues r length).getD k 0)

namespace Dealing

variable (key)

/-! ## Splitting values -/

/-- The shares of all parties add up to the value. -/
theorem share_spec (one : 1 ≤ n) (v : Elem F) (source : γ) :
    ∃ (d : PartyId → Elem F) (after : γ),
      (∀ i, (⟨i, n, key⟩ : Dealing F).share v source = (d i, after)) ∧
      ∑ i ∈ Finset.Icc 1 n, d i = v := by
  obtain ⟨m, rfl⟩ : ∃ m, n = m + 1 := ⟨n - 1, by omega⟩
  refine ⟨fun i => ((⟨i, m + 1, key⟩ : Dealing F).share v source).1,
    (WordSource.collect (Elem.random F) m source).2, fun i => rfl, ?_⟩
  have count := WordSource.length_collect (Elem.random F) m source
  have others : (List.range' 2 m).map (fun i => ((⟨i, m + 1, key⟩ : Dealing F).share v source).1)
      = (WordSource.collect (Elem.random F) m source).1 := by
    refine List.ext_getElem (by simp [count]) fun k small _ => ?_
    have here : k < (WordSource.collect (Elem.random F) m source).1.length := by
      simpa [count] using small
    simp [share, Nat.add_comm 2, here]
  rw [← sum_range', List.range'_succ, List.map_cons, List.sum_cons, others]
  simp [share, Elem.foldl_sub]

/-- A value is split under the key. -/
theorem authenticate_spec (one : 1 ≤ n) (v : Elem F) (source : γ) :
    ∃ (x : PartyId → Share F) (after : γ),
      (∀ i, (⟨i, n, key⟩ : Dealing F).authenticate v source = (x i, after)) ∧
      IsSharing n key x v := by
  obtain ⟨own, middle, owns, value⟩ := share_spec key one v source
  obtain ⟨mac, after, macs, sum⟩ := share_spec key one (v * key) middle
  refine ⟨fun i => ⟨own i, mac i⟩, after, fun i => ?_, value, sum.trans (mul_comm v key)⟩
  simp only [authenticate, owns, macs]

theorem random_spec (one : 1 ≤ n) (source : γ) :
    ∃ (x : PartyId → Share F) (v : Elem F) (after : γ),
      (∀ i, (⟨i, n, key⟩ : Dealing F).random source = ((x i, v), after)) ∧
      IsSharing n key x v := by
  obtain ⟨x, after, shares, sharing⟩ :=
    authenticate_spec key one (Elem.random F source).1 (Elem.random F source).2
  refine ⟨x, _, after, fun i => ?_, sharing⟩
  simp only [random, shares]

theorem authenticateAll_spec (one : 1 ≤ n) (values : List (Elem F)) (source : γ) :
    ∃ (d : PartyId → List (Share F)) (after : γ),
      (∀ i, (⟨i, n, key⟩ : Dealing F).authenticateAll values source = (d i, after)) ∧
      (∀ i, (d i).length = values.length) ∧
      ∀ k < values.length, IsSharing n key (fun i => (d i).getD k 0) (values.getD k 0) := by
  induction values generalizing source with
  | nil => exact ⟨fun _ => [], source, fun _ => rfl, fun _ => rfl, fun k small => absurd small (by simp)⟩
  | cons v values ih =>
      obtain ⟨x, middle, first, sharing⟩ := authenticate_spec key one v source
      obtain ⟨d, after, others, lengths, sharings⟩ := ih middle
      refine ⟨fun i => x i :: d i, after, fun i => ?_, fun i => ?_, fun k small => ?_⟩
      · simp only [authenticateAll, first, others]
      · simp [lengths i]
      · cases k with
        | zero => exact sharing
        | succ k => exact sharings k (Nat.lt_of_succ_lt_succ small)

theorem length_pipeValues (r : Elem F) (length : Nat) : (pipeValues r length).length = length := by
  cases length <;> simp [pipeValues]

/-! ## Dealing items -/

/-- What starts a pipe is not zero. -/
theorem randomNonzero_ne_zero (source : γ) : (Elem.randomNonzero F source).1 ≠ 0 := by
  have := Elem.nontrivial F
  have tries : ∀ (tries : Nat) (source : γ), (Elem.sampleNonzero F tries source).1 ≠ 0 := by
    intro tries
    induction tries with
    | zero => exact fun _ => one_ne_zero
    | succ tries ih =>
        intro source
        simp only [Elem.sampleNonzero]
        split_ifs with zero
        · exact ih _
        · exact zero
  exact tries _ source

/-- **One item for all.** -/
theorem deal_spec (one : 1 ≤ n) (length : Nat) (item : Item) (source : γ) :
    ∃ (plain : item.Plain F) (d : PartyId → item.Value F) (after : γ),
      (∀ i, (⟨i, n, key⟩ : Dealing F).deal length item source = (d i, after)) ∧
      IsDealt n key length item plain d := by
  cases item with
  | triple =>
      obtain ⟨a, u, s₁, ha, sharingA⟩ := random_spec key one source
      obtain ⟨b, v, s₂, hb, sharingB⟩ := random_spec key one s₁
      obtain ⟨c, s₃, hc, sharingC⟩ := authenticate_spec key one (u * v) s₂
      refine ⟨(u, v), fun i => ⟨a i, b i, c i⟩, s₃, fun i => ?_, sharingA, sharingB, sharingC⟩
      simp only [deal, triple, ha, hb, hc]
  | mask toward =>
      obtain ⟨x, v, after, hx, sharing⟩ := random_spec key one source
      refine ⟨v, fun i => ⟨x i, if toward = i then some v else none⟩, after, fun i => ?_, sharing,
        fun i => rfl⟩
      simp only [deal, mask, hx]
  | element =>
      obtain ⟨x, v, after, hx, sharing⟩ := random_spec key one source
      refine ⟨v, x, after, fun i => ?_, sharing⟩
      simp only [deal, element, hx]
  | bit =>
      obtain ⟨x, after, hx, sharing⟩ := authenticate_spec key one
        (if (WordSource.coin source).1 then 1 else 0) (WordSource.coin source).2
      refine ⟨(WordSource.coin source).1, x, after, fun i => ?_, sharing⟩
      simp only [deal, bit, hx]
  | pipe =>
      have count := length_pipeValues (Elem.randomNonzero F source).1 length
      obtain ⟨d, after, hd, lengths, sharings⟩ := authenticateAll_spec key one
        (pipeValues (Elem.randomNonzero F source).1 length) (Elem.randomNonzero F source).2
      rw [count] at lengths sharings
      refine ⟨(Elem.randomNonzero F source).1, d, after, fun i => ?_, randomNonzero_ne_zero source,
        lengths, sharings⟩
      simp only [deal, pipe, hd]

end Dealing

end Spdz
