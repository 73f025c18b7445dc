import MailserverUi.Core.Text

/-!
# UTF-8 (`str.encode("utf-8")`)

* `utf8_injective`: no two texts have the same bytes.
* `take_utf8_eq_iff`: a text of fewer than `n` bytes is the only one whose first
  `n` bytes are its own, and no longer text is.
-/
namespace MailserverUi.Py

def utf8 (s : Str) : List UInt8 := s.flatMap String.utf8EncodeChar

theorem utf8_append (s t : Str) : utf8 (s ++ t) = utf8 s ++ utf8 t := List.flatMap_append

theorem utf8_injective : Function.Injective utf8 := by
  intro s t h
  have hs : s.utf8Encode = t.utf8Encode := congrArg List.toByteArray h
  have hd := congrArg ByteArray.utf8Decode? hs
  rw [List.utf8Decode?_utf8Encode, List.utf8Decode?_utf8Encode, Option.some.injEq] at hd
  simpa using congrArg Array.toList hd

/-- Cutting after `n` bytes tells a text from every other one exactly when there
is nothing to cut, and room for one byte more. -/
theorem take_utf8_eq_iff (n : Nat) (s : Str) :
    (∀ t, (utf8 t).take n = (utf8 s).take n ↔ t = s) ↔ (utf8 s).length < n := by
  constructor
  · intro h
    by_contra hn
    have hcut : (utf8 (s ++ ['x'])).take n = (utf8 s).take n := by
      rw [utf8_append]
      exact List.take_append_of_le_length (not_lt.mp hn)
    have hlen := congrArg List.length ((h _).mp hcut)
    simp at hlen
  · intro hn t
    refine ⟨fun h => ?_, fun h => by rw [h]⟩
    rw [List.take_of_length_le hn.le] at h
    have hlen : (utf8 t).length < n := by
      have := congrArg List.length h
      rw [List.length_take] at this
      omega
    rw [List.take_of_length_le hlen.le] at h
    exact utf8_injective h

end MailserverUi.Py
