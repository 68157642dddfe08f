import Mathlib.Data.List.GetD
import Sql602.Library.Bytes

namespace Files

open Bytes

/-! A file as the bytes up to its size. A write behind the end fills the gap with
zeros; a read that reaches behind the end fails. -/

structure File where
  size : Nat
  bytes : Memory

def File.empty : File := ⟨0, fun _ => 0⟩

def File.write (file : File) (pos : Nat) (data : List UInt8) : File :=
  if data = [] then file
  else
    { size := max file.size (pos + data.length)
      bytes := fun i =>
        if pos ≤ i ∧ i < pos + data.length then data.getD (i - pos) 0
        else if i < file.size then file.bytes i else 0 }

def File.read (file : File) (pos len : Nat) : Option (List UInt8) :=
  if pos + len ≤ file.size then some (slice file.bytes pos len) else none

variable {file next last : File} {pos len at' : Nat} {data : List UInt8}

theorem read_eq_some (hin : pos + len ≤ file.size) :
    file.read pos len = some (slice file.bytes pos len) :=
  if_pos hin

theorem read_eq_none (hout : file.size < pos + len) : file.read pos len = none :=
  if_neg (by omega)

theorem within_of_read {contents : List UInt8} (hread : file.read pos len = some contents) :
    pos + len ≤ file.size := by
  by_contra hout
  rw [read_eq_none (by omega)] at hread
  cases hread

theorem write_nil (file : File) (pos : Nat) : file.write pos [] = file := if_pos rfl

theorem size_le_write : file.size ≤ (file.write pos data).size := by
  simp only [File.write]
  split
  · exact Nat.le_refl _
  · exact Nat.le_max_left ..

theorem size_write_le : (file.write pos data).size ≤ max file.size (pos + data.length) := by
  simp only [File.write]
  split
  · exact Nat.le_max_left ..
  · exact Nat.le_refl _

theorem write_size (hdata : data ≠ []) :
    (file.write pos data).size = max file.size (pos + data.length) := by
  rw [File.write, if_neg hdata]

theorem bytes_write_apart {i : Nat} (hin : i < file.size)
    (hout : i < pos ∨ pos + data.length ≤ i) : (file.write pos data).bytes i = file.bytes i := by
  simp only [File.write]
  split
  · rfl
  · dsimp only
    rw [if_neg (by omega), if_pos hin]

theorem bytes_write_inside {i : Nat} (hi : i < data.length) :
    (file.write pos data).bytes (pos + i) = data[i] := by
  have hdata : data ≠ [] := by
    rintro rfl
    exact absurd hi (Nat.not_lt_zero i)
  rw [File.write, if_neg hdata]
  dsimp only
  rw [if_pos ⟨Nat.le_add_right .., by omega⟩, Nat.add_sub_cancel_left, List.getD_eq_getElem _ _ hi]

theorem read_write_apart (hin : at' + len ≤ file.size)
    (hout : at' + len ≤ pos ∨ pos + data.length ≤ at') :
    (file.write pos data).read at' len = file.read at' len := by
  have hgrown : file.size ≤ (file.write pos data).size := size_le_write
  rw [read_eq_some hin, read_eq_some (by omega)]
  exact congrArg some (slice_congr fun i hi => bytes_write_apart (by omega) (by omega))

theorem read_write_same (hdata : data ≠ []) :
    (file.write pos data).read pos data.length = some data := by
  rw [read_eq_some (by rw [write_size hdata]; exact Nat.le_max_right ..)]
  refine congrArg some (List.ext_getElem slice_length fun i hi _ => ?_)
  rw [slice_length] at hi
  simp only [slice, List.getElem_map, List.getElem_range]
  exact bytes_write_inside hi

theorem read_write_full (hpos : pos ≤ file.size) :
    (file.write pos data).read pos data.length = some data := by
  cases data with
  | nil =>
      rw [write_nil, List.length_nil, read_eq_some hpos]
      rfl
  | cons byte bytes => exact read_write_same (List.cons_ne_nil _ _)

/-- Writing a part of what is there again changes nothing that can be read there. -/
theorem read_write_again {count : Nat} (hread : file.read pos len = some data) :
    (file.write pos (data.take count)).read pos len = some data := by
  have hin := within_of_read hread
  have hgrown : file.size ≤ (file.write pos (data.take count)).size := size_le_write
  rw [read_eq_some hin] at hread
  rw [read_eq_some (by omega), ← hread]
  refine congrArg some (slice_congr fun i hi => ?_)
  rcases Nat.lt_or_ge i (data.take count).length with hinside | houtside
  · rw [bytes_write_inside hinside, List.getElem_take]
    simp only [← Option.some.inj hread, slice, List.getElem_map, List.getElem_range]
  · exact bytes_write_apart (by omega) (by omega)

/-! Writes that stay inside a part of the file. -/

structure Within (start stop : Nat) (file next : File) : Prop where
  grown : file.size ≤ next.size
  bound : next.size ≤ max file.size stop
  apart : ∀ {at' len}, at' + len ≤ file.size → at' + len ≤ start ∨ stop ≤ at' →
    next.read at' len = file.read at' len

namespace Within

variable {start stop : Nat}

theorem refl : Within start stop file file :=
  ⟨Nat.le_refl _, Nat.le_max_left .., fun _ _ => rfl⟩

theorem write (hstart : start ≤ pos) (hstop : pos + data.length ≤ stop) :
    Within start stop file (file.write pos data) where
  grown := size_le_write
  bound := by
    have hle : (file.write pos data).size ≤ max file.size (pos + data.length) := size_write_le
    omega
  apart := fun hin hout => read_write_apart hin (by omega)

end Within

end Files
