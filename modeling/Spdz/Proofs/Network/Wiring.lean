import Spdz.Network.Wiring
import Spdz.Proofs.Network.Joint

/-!
# Every two parties are joined

The table of ends is filled pair by pair, and each place of it off the diagonal just once.  So the
channel of a party to another one and the channel back are the two ends of one stream, and nobody else
holds them.

* `Wiring.entry_mock` — what is in each place of the table.
* **`Wiring.complete_mock`** — the channels of every two parties; `Wiring.meshes_mock`, what each party
  makes of its row.
* **`Wiring.Complete.conducts`** — streams from party to party are as good as the ends.
-/

namespace Spdz

namespace Wiring

variable {n row column r c : Nat} {held : DuplexEnd} {wiring : Wiring}

/-! ## Places -/

/-- What is in a place, if there is such a place. -/
def entry (wiring : Wiring) (row column : Nat) : Option (Option DuplexEnd) :=
  wiring[row]?.bind (·[column]?)

/-- A table with as many rows and columns as there are parties. -/
structure IsSquare (n : Nat) (wiring : Wiring) : Prop where
  rows : wiring.length = n
  columns : ∀ places ∈ wiring, places.length = n

theorem entry_blank : (blank n).entry r c = if r < n ∧ c < n then some none else none := by
  by_cases inside : r < n
  · by_cases inside' : c < n <;> simp [entry, blank, inside, inside']
  · simp [entry, blank, inside]

theorem isSquare_blank : (blank n).IsSquare n where
  rows := List.length_replicate
  columns := fun places mem => by rw [List.eq_of_mem_replicate mem, List.length_replicate]

theorem IsSquare.entry_ne_none (square : wiring.IsSquare n) (inside : row < n)
    (inside' : column < n) : wiring.entry row column ≠ none := by
  have here : row < wiring.length := square.rows ▸ inside
  have there : column < wiring[row].length := square.columns _ (List.getElem_mem here) ▸ inside'
  simp [entry, here, there]

/-- Putting an end in a place changes this place only. -/
theorem entry_put (there : wiring.entry row column ≠ none) :
    (wiring.put row column held).entry r c
      = if r = row ∧ c = column then some (some held) else wiring.entry r c := by
  cases line : wiring[row]? with
  | none => exact absurd (by rw [entry, line]; rfl) there
  | some places =>
      have inside : column < places.length := by
        by_contra outside
        refine there ?_
        rw [entry, line, Option.bind_some, List.getElem?_eq_none (Nat.le_of_not_lt outside)]
      rw [entry, put, List.getElem?_modify]
      by_cases same : r = row
      · subst same
        by_cases here : c = column
        · subst here
          simp [line, inside]
        · simp [line, here, Ne.symm here, entry]
      · simp [same, Ne.symm same, entry]

theorem IsSquare.put (square : wiring.IsSquare n) (row column : Nat) (held : DuplexEnd) :
    (wiring.put row column held).IsSquare n where
  rows := by rw [Wiring.put, List.length_modify, square.rows]
  columns := by
    intro places mem
    obtain ⟨index, here, rfl⟩ := List.getElem_of_mem mem
    have same := square.columns _ (List.getElem_mem (by simpa [Wiring.put] using here))
    simp only [Wiring.put, List.getElem_modify]
    split_ifs <;> simpa using same

/-! ## Joining -/

/-- A pair is joined with the larger party first. -/
def IsLower (n : Nat) (pair : Nat × Nat) : Prop := pair.2 < pair.1 ∧ pair.1 < n

theorem IsSquare.join (square : wiring.IsSquare n) (stream row column : Nat) :
    (wiring.join stream row column).IsSquare n := (square.put ..).put ..

theorem entry_join (square : wiring.IsSquare n) (lower : IsLower n (row, column)) (stream : Nat) :
    (wiring.join stream row column).entry r c
      = if (r, c) = (row, column) then some (some ⟨stream, true⟩)
        else if (c, r) = (row, column) then some (some ⟨stream, false⟩) else wiring.entry r c := by
  have inside : column < n := Nat.lt_trans lower.1 lower.2
  have apart : row ≠ column := (Nat.ne_of_lt lower.1).symm
  have there := square.entry_ne_none lower.2 inside
  have there' := (square.put row column ⟨stream, true⟩).entry_ne_none inside lower.2
  rw [join, entry_put there', entry_put there]
  simp only [Prod.mk.injEq]
  by_cases first : r = row ∧ c = column
  · have other : ¬ (r = column ∧ c = row) := fun h => apart (first.1.symm.trans h.1)
    rw [if_neg other, if_pos first, if_pos first]
  · simp only [if_neg first, and_comm (a := c = row)]

theorem mem_pairs {pair : Nat × Nat} : pair ∈ pairs n ↔ IsLower n pair := by
  obtain ⟨row, column⟩ := pair
  simp [pairs, IsLower, and_comm]

theorem nodup_pairs : (pairs n).Nodup := by
  refine List.nodup_flatMap.mpr ⟨fun row _ => ?_, ?_⟩
  · exact List.nodup_range.map fun _ _ same => (Prod.mk.inj same).2
  · refine List.nodup_range.imp fun {row row'} differ => ?_
    intro pair left right
    obtain ⟨_, _, rfl⟩ := List.mem_map.mp left
    obtain ⟨_, _, same⟩ := List.mem_map.mp right
    exact differ (Prod.mk.inj same).1.symm

/-- Where every pair is joined once, the number of a stream is the place of its pair. -/
theorem entry_foldl {todo : List (Nat × Nat)} (lower : ∀ pair ∈ todo, IsLower n pair)
    (nodup : todo.Nodup) (square : wiring.IsSquare n) (first r c : Nat) :
    ((todo.zipIdx first).foldl (fun wiring ((row, column), stream) => wiring.join stream row column)
        wiring).entry r c
      = if (r, c) ∈ todo then some (some ⟨first + todo.idxOf (r, c), true⟩)
        else if (c, r) ∈ todo then some (some ⟨first + todo.idxOf (c, r), false⟩)
        else wiring.entry r c := by
  induction todo generalizing wiring first with
  | nil => simp
  | cons pair todo ih =>
      obtain ⟨row, column⟩ := pair
      obtain ⟨fresh, nodup⟩ := List.nodup_cons.mp nodup
      have here : IsLower n (row, column) := lower _ (by simp)
      have others : ∀ pair ∈ todo, IsLower n pair := fun pair mem => lower pair (by simp [mem])
      rw [List.zipIdx_cons, List.foldl_cons, ih others nodup (square.join ..),
        entry_join square here]
      -- a pair and its reverse are never both joined, so a place is filled by one pair only
      have aside : ∀ place ∈ todo, todo.idxOf place + 1 = ((row, column) :: todo).idxOf place :=
        fun place mem => (List.idxOf_cons_ne _ fun same : (row, column) = place =>
          fresh (same ▸ mem)).symm
      have oneWay : ∀ place, IsLower n place → ¬ IsLower n place.swap := fun place one two =>
        Nat.lt_asymm one.1 two.1
      by_cases head : (r, c) = (row, column)
      · have flipped : (c, r) ∉ todo := fun mem => oneWay (r, c) (head ▸ here) (others _ mem)
        rw [if_neg (head ▸ fresh), if_neg flipped, if_pos head, if_pos (by simp [head]), head,
          List.idxOf_cons_self, Nat.add_zero]
      · by_cases tail : (c, r) = (row, column)
        · have flipped : (r, c) ∉ todo := fun mem => oneWay (c, r) (tail ▸ here) (others _ mem)
          rw [if_neg flipped, if_neg (tail ▸ fresh), if_neg head, if_pos tail,
            if_neg (by simp [head, flipped]), if_pos (by simp [tail]), tail, List.idxOf_cons_self,
            Nat.add_zero]
        · simp only [List.mem_cons, head, tail, false_or, if_false]
          split_ifs with mem mem'
          · rw [← aside _ mem, Nat.add_assoc, Nat.add_comm 1]
          · rw [← aside _ mem', Nat.add_assoc, Nat.add_comm 1]
          · rfl

/-- What is in each place of the table. -/
theorem entry_mock : (mock n).entry r c
    = if c < r ∧ r < n then some (some ⟨(pairs n).idxOf (r, c), true⟩)
      else if r < c ∧ c < n then some (some ⟨(pairs n).idxOf (c, r), false⟩)
      else if r < n ∧ c < n then some none else none := by
  rw [mock, entry_foldl (fun _ => mem_pairs.mp) nodup_pairs isSquare_blank 0 r c, entry_blank]
  simp only [mem_pairs, IsLower, Nat.zero_add]

theorem isSquare_mock : (mock n).IsSquare n :=
  List.foldlRecOn _ _ isSquare_blank fun _ square _ _ => square.join ..

/-! ## Channels -/

/-- Every two parties are joined by a stream of their own. -/
structure Complete (n : Nat) (wiring : Wiring) : Prop where
  joined : ∀ i j : Nat, IsMember n i → j ∈ peersOf i n →
    ∃ held, wiring.channel i j = .ok held ∧ wiring.channel j i = .ok held.opposite
  own : ∀ (i j i' j' : Nat) (held : DuplexEnd), IsMember n i → IsMember n i' →
    wiring.channel i j = .ok held → wiring.channel i' j' = .ok held → i' = i ∧ j' = j
  unknown : ∀ i j : Nat, IsMember n i → j ∉ peersOf i n →
    wiring.channel i j = .error (.unknownParty j)

theorem channel_eq_ok {i j : Nat} : wiring.channel i j = .ok held ↔
    j ≠ i ∧ j ≠ 0 ∧ wiring.entry (i - 1) (j - 1) = some (some held) := by
  rw [channel, ← entry]
  split_ifs with none
  · simp; tauto
  · split <;> simp_all

theorem error_of_channel {i j : Nat} {e : TransportError} (refused : wiring.channel i j = .error e) :
    e = .unknownParty j := by
  rw [channel] at refused
  split_ifs at refused
  · exact (Except.error.inj refused).symm
  · split at refused
    · cases refused
    · exact (Except.error.inj refused).symm

theorem channel_mock {i j : Nat} (member : IsMember n i) (peer : j ∈ peersOf i n) :
    (mock n).channel i j = .ok (if j < i then ⟨(pairs n).idxOf (i - 1, j - 1), true⟩
      else ⟨(pairs n).idxOf (j - 1, i - 1), false⟩) := by
  obtain ⟨member', (other : (j : Nat) ≠ i)⟩ := mem_peersOf.mp peer
  simp only [IsMember] at member member'
  rw [channel_eq_ok, entry_mock]
  refine ⟨other, Nat.ne_of_gt member'.1, ?_⟩
  split_ifs <;> first | rfl | omega

/-- The number of a stream tells the pair. -/
theorem eq_of_idxOf_pairs {p q : Nat × Nat} (lower : IsLower n p)
    (same : (pairs n).idxOf p = (pairs n).idxOf q) : p = q :=
  (List.idxOf_inj (mem_pairs.mpr lower)).mp same

theorem mem_peersOf_of_channel {i j : Nat} (here : (mock n).channel i j = .ok held) :
    j ∈ peersOf i n := by
  rw [channel_eq_ok, entry_mock] at here
  obtain ⟨other, nonzero, found⟩ := here
  have inside : j - 1 < n := by
    by_contra outside
    split_ifs at found <;> omega
  exact mem_peersOf.mpr ⟨⟨Nat.pos_of_ne_zero nonzero, by omega⟩, other⟩

/-- **Every two parties are joined.** -/
theorem complete_mock : (mock n).Complete n where
  joined := by
    intro i j member peer
    obtain ⟨member', other⟩ := mem_peersOf.mp peer
    refine ⟨_, channel_mock member peer, ?_⟩
    rw [channel_mock member' (mem_peersOf.mpr ⟨member, other.symm⟩)]
    rcases Nat.lt_or_gt_of_ne other with less | more
    · rw [if_neg (Nat.lt_asymm less), if_pos less]
      rfl
    · rw [if_pos more, if_neg (Nat.lt_asymm more)]
      rfl
  own := by
    intro i j i' j' held member member' here there
    have peer := mem_peersOf_of_channel here
    have peer' := mem_peersOf_of_channel there
    rw [channel_mock member peer] at here
    rw [channel_mock member' peer', ← here, Except.ok.injEq] at there
    obtain ⟨⟨low, high⟩, (apart : (j : Nat) ≠ i)⟩ := mem_peersOf.mp peer
    obtain ⟨⟨low', high'⟩, (apart' : (j' : Nat) ≠ i')⟩ := mem_peersOf.mp peer'
    simp only [IsMember] at member member'
    split_ifs at there with second first first <;>
      simp only [DuplexEnd.mk.injEq, and_true, and_false, reduceCtorEq] at there
    · have lower : IsLower n (i' - 1, j' - 1) := by simp only [IsLower]; omega
      obtain ⟨one, two⟩ := Prod.mk.inj (eq_of_idxOf_pairs lower there)
      omega
    · have lower : IsLower n (j' - 1, i' - 1) := by simp only [IsLower]; omega
      obtain ⟨one, two⟩ := Prod.mk.inj (eq_of_idxOf_pairs lower there)
      omega
  unknown := by
    intro i j member stranger
    cases found : (mock n).channel i j with
    | ok held => exact absurd (mem_peersOf_of_channel found) stranger
    | error e => rw [error_of_channel found]

/-- A party finds a channel to everyone else in its row. -/
theorem ofChannels_row {k : Nat} {places : List (Option DuplexEnd)} (here : (mock n)[k]? = some places) :
    Mesh.ofChannels (k + 1) (places.map Option.isSome) = .ok { parties := n } := by
  have width : places.length = n := isSquare_mock.columns _ (List.mem_of_getElem? here)
  have member : IsMember n (k + 1) := by
    obtain ⟨inside, -⟩ := List.getElem?_eq_some_iff.mp here
    rw [isSquare_mock.rows] at inside
    exact ⟨Nat.le_add_left .., inside⟩
  have all : (peersOf (k + 1) n).find? (fun peer => (places.map Option.isSome)[peer - 1]? ≠ some true)
      = none := by
    rw [List.find?_eq_none]
    intro peer mem
    obtain ⟨-, -, found⟩ := channel_eq_ok.mp (channel_mock member mem)
    rw [Nat.add_sub_cancel, entry, here, Option.bind_some] at found
    rw [List.getElem?_map, found]
    simp
  rw [Mesh.ofChannels, List.length_map, width, all]

/-- All parties find an empty mesh. -/
theorem meshes_mock : (mock n).meshes = List.replicate n { parties := n } := by
  have same : ∀ row ∈ (mock n).zipIdx, (Mesh.ofChannels (row.2 + 1) (row.1.map Option.isSome)).toOption
      = some { parties := n } := by
    rintro ⟨places, k⟩ mem
    rw [ofChannels_row (List.mem_zipIdx_iff_getElem?.mp mem)]
    rfl
  rw [meshes, List.filterMap_congr same, List.filterMap_eq_map', List.map_const', List.length_zipIdx,
    isSquare_mock.rows]

/-! ## Streams -/

/-- The stream from one party to another is what was written at the end that the one has. -/
def Shows (n : Nat) (wiring : Wiring) (ends : DuplexEnd → ByteStream)
    (streams : Links ByteStream) : Prop :=
  ∀ (i j : Nat) (held : DuplexEnd), IsMember n i → wiring.channel i j = .ok held →
    streams.get i j = ends held

/-- **A mesh stands for the ends.**  At its end a party reads what was written at the other one, and
whoever writes at an end changes one stream of the mesh only. -/
theorem Complete.conducts (complete : wiring.Complete n) {ends : DuplexEnd → ByteStream}
    {streams : Links ByteStream} (shown : wiring.Shows n ends streams) {i j : Nat}
    (member : IsMember n i) (here : wiring.channel i j = .ok held) :
    streams.get j i = ends held.opposite ∧ ∀ change,
      wiring.Shows n (Function.update ends held (change (ends held))) (streams.modify i j change) := by
  constructor
  · have peer : j ∈ peersOf i n := by
      by_contra stranger
      rw [complete.unknown i j member stranger] at here
      cases here
    obtain ⟨_, there, back⟩ := complete.joined i j member peer
    cases here.symm.trans there
    exact shown j i held.opposite (mem_peersOf.mp peer).1 back
  · intro change i' j' held' member' there
    rw [Links.get_modify]
    by_cases same : (i', j') = (i, j)
    · cases same
      cases here.symm.trans there
      rw [if_pos rfl, Function.update_self, shown i j held member here]
    · have differs : held' ≠ held := by
        rintro rfl
        obtain ⟨rfl, rfl⟩ := complete.own i j i' j' held' member member' here there
        exact same rfl
      rw [if_neg same, Function.update_of_ne differs]
      exact shown i' j' held' member' there

end Wiring

end Spdz
