import DeclArchive.Container.Stream
import DeclArchive.Proofs.Runs
import Mathlib.Tactic.SplitIfs

/-!
# Writing to a stream

What is written from a position on replaces as many bytes as it has and no others: `Stream.overlay` says
what the stream then holds. `Stream.Holds` says that a stream is what another one became by such writing,
and where it stands. A stream that grows takes all it is given; another one takes what has room in it
(`Stream.Takes`), and a write that has no room stores its beginning and stops.
-/

namespace DeclArchive.Stream

/-- The bytes of `x` with those from `start` on replaced by `out`, as far as that goes. -/
def overlay (x : List UInt8) (start : Nat) (out : List UInt8) : List UInt8 :=
  x.take start ++ out ++ x.drop (start + out.length)

/-- There is room for `n` bytes at the position. -/
def Takes (s : Stream) (n : Nat) : Prop := s.growable = true ∨ s.position + n ≤ s.content.size

/-- The stream is what `first` became when `out` was written where it stood, and is at `position`. -/
structure Holds (s first : Stream) (out : List UInt8) (position : Nat) : Prop where
  growable : s.growable = first.growable
  content : s.content.toList = overlay first.content.toList first.position out
  position : s.position = position
  room : first.Takes out.length

variable {x out : List UInt8} {start position : Nat} {first s s' : Stream} {u : Unit}

/-! ## Overlays -/

theorem overlay_nil (x : List UInt8) (start : Nat) : overlay x start [] = x := by
  rw [overlay, List.append_nil, List.length_nil, Nat.add_zero, List.take_append_drop]

theorem length_overlay (h : start ≤ x.length) :
    (overlay x start out).length = max x.length (start + out.length) := by
  simp only [overlay, List.length_append, List.length_take, List.length_drop]
  omega

/-- Writing more behind what was written. -/
theorem overlay_behind (h : start ≤ x.length) (data : List UInt8) :
    (overlay x start out).take (start + out.length) ++ data ++
      (overlay x start out).drop (start + out.length + data.length) =
        overlay x start (out ++ data) := by
  have length : (x.take start ++ out).length = start + out.length := by
    rw [List.length_append, List.length_take, Nat.min_eq_left h]
  have before : (overlay x start out).take (start + out.length) = x.take start ++ out :=
    List.take_left' length
  have after : (overlay x start out).drop (start + out.length + data.length) =
      x.drop (start + (out ++ data).length) := by
    rw [← List.drop_drop, overlay, List.drop_left' length, List.drop_drop, List.length_append,
      Nat.add_assoc]
  rw [before, after, overlay, List.append_assoc (x.take start)]

/-- Writing over the front of what was written. -/
theorem overlay_front (h : start ≤ x.length) {front : List UInt8} (data rest : List UInt8)
    (same : data.length = front.length) :
    (overlay x start (front ++ rest)).take start ++ data ++
      (overlay x start (front ++ rest)).drop (start + data.length) =
        overlay x start (data ++ rest) := by
  have length : (x.take start).length = start := by rw [List.length_take, Nat.min_eq_left h]
  have length' : (x.take start ++ front).length = start + data.length := by
    rw [List.length_append, length, same]
  have before : (overlay x start (front ++ rest)).take start = x.take start := by
    rw [overlay, List.append_assoc, List.take_left' length]
  have after : (overlay x start (front ++ rest)).drop (start + data.length) =
      rest ++ x.drop (start + (data ++ rest).length) := by
    rw [overlay, ← List.append_assoc (x.take start), List.append_assoc (_ ++ front),
      List.drop_left' length', List.length_append, List.length_append, same]
  rw [before, after, overlay]
  simp only [List.append_assoc]

/-! ## Room -/

theorem Takes.room_eq {n : Nat} (h : s.Takes n) : s.room n = n := by
  unfold room
  split_ifs with grows
  · rfl
  · have := h.resolve_left grows
    omega

theorem Takes.mono {n m : Nat} (h : s.Takes m) (le : n ≤ m) : s.Takes n :=
  h.imp_right fun room => Nat.le_trans (Nat.add_le_add_left le _) room

theorem takes_of_room {n : Nat} (inside : s.position ≤ s.content.size) (h : n ≤ s.room n) :
    s.Takes n := by
  unfold room at h
  split_ifs at h with grows
  · exact .inl grows
  · exact .inr (by omega)

theorem toList_put {data : Array UInt8} (room : s.Takes data.size)
    (inside : s.position ≤ s.content.size) :
    (s.put data).content.toList = s.content.toList.take s.position ++ data.toList ++
      s.content.toList.drop (s.position + data.size) := by
  have gap : s.position - s.content.size = 0 := Nat.sub_eq_zero_of_le inside
  unfold put
  simp only [room.room_eq, gap, Array.toList_append, Array.toList_extract, List.extract,
    List.drop_zero, Nat.sub_zero, Array.replicate_zero, List.append_nil]
  have whole : data.toList.take data.size = data.toList :=
    List.take_of_length_le (Nat.le_of_eq Array.length_toList)
  have after : (s.content.toList.drop (s.position + data.size)).take
      (s.content.size - (s.position + data.size)) = s.content.toList.drop (s.position + data.size) :=
    List.take_of_length_le (Nat.le_of_eq (by rw [List.length_drop, Array.length_toList]))
  rw [whole, after]

/-- A write from the start that has no room fills the stream with its first bytes. -/
theorem toList_put_short {data : Array UInt8} (front : s.position = 0)
    (short : s.room data.size < data.size) :
    (s.put data).content.toList = data.toList.take s.content.size := by
  have full : s.room data.size = s.content.size := by
    unfold room at short ⊢
    split_ifs at short ⊢ <;> omega
  unfold put
  simp [full, front, List.extract]

/-- A write further on leaves the first byte. -/
theorem head_put {data : Array UInt8} (later : 0 < s.position) (some : 0 < s.content.size) :
    (s.put data).content[0]? = s.content[0]? := by
  have first : 0 < (s.content.extract 0 s.position).size := by
    rw [Array.size_extract]
    omega
  unfold put
  dsimp only
  rw [Array.append_assoc, Array.append_assoc, Array.getElem?_append_left first,
    Array.getElem?_extract, if_pos (by omega), Nat.zero_add]

/-! ## Runs -/

theorem returns_write {data : Array UInt8} :
    Returns (write data) s u s' ↔ data.size ≤ s.room data.size ∧ s.put data = s' := by
  unfold write
  simp only [returns_bind, returns_get, returns_set]
  constructor
  · rintro ⟨_, _, ⟨rfl, rfl⟩, _, _, rfl, run⟩
    split_ifs at run with short
    · exact (returns_throw.1 run).elim
    · exact ⟨Nat.le_of_not_lt short, (returns_pure.1 run).2⟩
  · rintro ⟨whole, rfl⟩
    refine ⟨s, s, ⟨rfl, rfl⟩, ⟨⟩, s.put data, rfl, ?_⟩
    rw [if_neg (Nat.not_lt.2 whole)]
    exact returns_pure.2 ⟨rfl, rfl⟩

/-- A write stops where its bytes have no room, and has then stored as many as fit. -/
theorem stops_write {data : Array UInt8} {e : Error} :
    Stops (write data) s e s' ↔
      s.room data.size < data.size ∧ e = .refused .streamFull ∧ s.put data = s' := by
  unfold write
  simp only [stops_bind, stops_get, stops_set, returns_get, returns_set, false_or]
  constructor
  · rintro ⟨_, _, ⟨rfl, rfl⟩, _, _, rfl, stop⟩
    split_ifs at stop with short
    · obtain ⟨rfl, rfl⟩ := stops_throw.1 stop
      exact ⟨short, rfl, rfl⟩
    · exact (stops_pure.1 stop).elim
  · rintro ⟨short, rfl, rfl⟩
    refine ⟨s, s, ⟨rfl, rfl⟩, ⟨⟩, s.put data, rfl, ?_⟩
    rw [if_pos short]
    exact stops_throw.2 ⟨rfl, rfl⟩

@[simp] theorem returns_seek {position : Nat} :
    Returns (seek position) s u s' ↔ { s with position } = s' := returns_modify

@[simp] theorem stops_seek {position : Nat} {e : Error} :
    Stops (seek position) s e s' ↔ False := stops_modify

@[simp] theorem returns_tell {n : Nat} : Returns tell s n s' ↔ s.position = n ∧ s = s' := by
  unfold tell
  simp only [returns_bind, returns_get, returns_pure]
  constructor
  · rintro ⟨_, _, ⟨rfl, rfl⟩, h⟩
    exact h
  · exact fun h => ⟨s, s, ⟨rfl, rfl⟩, h⟩

@[simp] theorem stops_tell {e : Error} : Stops tell s e s' ↔ False := by
  unfold tell
  simp only [stops_bind, stops_get, stops_pure, and_false, exists_false, or_self]

/-! ## What a stream holds -/

section

variable (h : first.position ≤ first.content.size)

include h

theorem holds_self : first.Holds first [] first.position :=
  ⟨rfl, (overlay_nil _ _).symm, rfl, .inr h⟩

theorem Holds.size_eq (holds : s.Holds first out position) :
    s.content.size = max first.content.size (first.position + out.length) := by
  rw [← Array.length_toList, holds.content, length_overlay (by rwa [Array.length_toList]),
    Array.length_toList]

/-- Behind what was written there is as much room as the first stream had beyond that. -/
theorem Holds.takes_iff (holds : s.Holds first out (first.position + out.length)) {n : Nat} :
    s.Takes n ↔ first.Takes (out.length + n) := by
  have size := holds.size_eq h
  have room := holds.room
  unfold Takes at room ⊢
  rw [holds.growable, holds.position]
  by_cases grows : first.growable = true
  · simp [grows]
  · rw [or_iff_right grows] at room
    rw [or_iff_right grows, or_iff_right grows]
    omega

/-- What is written at the end of what was written comes behind it. -/
theorem Holds.put_behind (holds : s.Holds first out (first.position + out.length))
    {data : Array UInt8} (room : s.Takes data.size) :
    (s.put data).Holds first (out ++ data.toList)
      (first.position + (out ++ data.toList).length) := by
  have start : first.position ≤ first.content.toList.length := by rwa [Array.length_toList]
  have inside : s.position ≤ s.content.size := by
    rw [holds.position, holds.size_eq h]
    exact Nat.le_max_right ..
  refine ⟨holds.growable, ?_, ?_, ?_⟩
  · rw [toList_put room inside, holds.content, holds.position, ← Array.length_toList]
    exact overlay_behind start data.toList
  · show s.position + s.room data.size = _
    rw [room.room_eq, holds.position, List.length_append, ← @Array.length_toList _ data,
      Nat.add_assoc]
  · rw [List.length_append, Array.length_toList]
    exact (holds.takes_iff h).1 room

/-- What is written at the start replaces as much of what was written. -/
theorem Holds.put_front {front rest : List UInt8}
    (holds : s.Holds first (front ++ rest) first.position) {data : Array UInt8}
    (same : data.toList.length = front.length) :
    s.Takes data.size ∧ (s.put data).Holds first (data.toList ++ rest)
      (first.position + data.toList.length) := by
  have start : first.position ≤ first.content.toList.length := by rwa [Array.length_toList]
  have size := holds.size_eq h
  rw [List.length_append, ← same, Array.length_toList] at size
  have inside : s.position ≤ s.content.size := by
    rw [holds.position]
    omega
  have room : s.Takes data.size := by
    refine .inr ?_
    rw [holds.position]
    omega
  refine ⟨room, holds.growable, ?_, ?_, ?_⟩
  · rw [toList_put room inside, holds.content, holds.position, ← Array.length_toList]
    exact overlay_front start data.toList rest same
  · show s.position + s.room data.size = _
    rw [room.room_eq, holds.position, Array.length_toList]
  · rw [List.length_append, same, ← List.length_append]
    exact holds.room

theorem Holds.write_behind (holds : s.Holds first out (first.position + out.length))
    {data : Array UInt8} (run : Returns (write data) s u s') :
    s'.Holds first (out ++ data.toList) (first.position + (out ++ data.toList).length) := by
  obtain ⟨whole, rfl⟩ := returns_write.1 run
  refine holds.put_behind h (takes_of_room ?_ whole)
  rw [holds.position, holds.size_eq h]
  exact Nat.le_max_right ..

/-- A write behind what was written stops only where there is no room. -/
theorem Holds.not_takes_of_stops (holds : s.Holds first out (first.position + out.length))
    {data : Array UInt8} {e : Error} (stop : Stops (write data) s e s') :
    ¬ first.Takes (out ++ data.toList).length := by
  obtain ⟨short, -, -⟩ := stops_write.1 stop
  intro room
  rw [List.length_append] at room
  have here : s.Takes data.size := (holds.takes_iff h).2 room
  rw [here.room_eq] at short
  exact Nat.lt_irrefl _ short

theorem Holds.write_front {front rest : List UInt8}
    (holds : s.Holds first (front ++ rest) first.position) {data : Array UInt8}
    (same : data.toList.length = front.length) (run : Returns (write data) s u s') :
    s'.Holds first (data.toList ++ rest) (first.position + data.toList.length) := by
  obtain ⟨-, rfl⟩ := returns_write.1 run
  exact (holds.put_front h same).2

/-- A write over the start of what was written does not stop. -/
theorem Holds.not_stops_front {front rest : List UInt8}
    (holds : s.Holds first (front ++ rest) first.position) {data : Array UInt8}
    (same : data.toList.length = front.length) {e : Error} : ¬ Stops (write data) s e s' := by
  intro stop
  obtain ⟨short, -, -⟩ := stops_write.1 stop
  rw [(holds.put_front h same).1.room_eq] at short
  exact Nat.lt_irrefl _ short

end

theorem Holds.seek (holds : s.Holds first out position) {target : Nat}
    (run : Returns (seek target) s u s') : s'.Holds first out target := by
  obtain rfl := returns_seek.1 run
  exact ⟨holds.growable, holds.content, rfl, holds.room⟩

/-- The first byte that was written, at the front of a stream. -/
theorem Holds.head {b : UInt8} (holds : s.Holds first out position) (starts : out.head? = some b)
    (front : first.position = 0) : s.content[0]? = some b := by
  obtain ⟨rest, rfl⟩ := List.head?_eq_some_iff.1 starts
  rw [← Array.getElem?_toList, holds.content, front, overlay, List.take_zero]
  rfl

/-- It stays there when a later write stops. -/
theorem Holds.head_of_stops {b : UInt8} (holds : s.Holds first out (first.position + out.length))
    (starts : out.head? = some b) (front : first.position = 0) {data : Array UInt8} {e : Error}
    (stop : Stops (write data) s e s') : s'.content[0]? = some b := by
  obtain ⟨-, -, rfl⟩ := stops_write.1 stop
  have head := holds.head starts front
  obtain ⟨rest, rfl⟩ := List.head?_eq_some_iff.1 starts
  have later : 0 < s.position := by
    rw [holds.position, List.length_cons]
    omega
  rw [head_put later (Array.getElem?_eq_some_iff.1 head).1, head]

/-- The first write at the front of a stream, where it stops, leaves its own first byte or nothing. -/
theorem head_of_stops {data : Array UInt8} {b : UInt8} {e : Error} (front : s.position = 0)
    (starts : data.toList.head? = some b) (stop : Stops (write data) s e s') :
    ∀ c, s'.content[0]? = some c → c = b := by
  obtain ⟨short, -, rfl⟩ := stops_write.1 stop
  intro c first
  obtain ⟨rest, same⟩ := List.head?_eq_some_iff.1 starts
  rw [← Array.getElem?_toList, toList_put_short front short, List.getElem?_take] at first
  split_ifs at first
  rw [same] at first
  exact (Option.some.inj first).symm

end DeclArchive.Stream
