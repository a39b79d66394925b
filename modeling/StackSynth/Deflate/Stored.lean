import StackSynth.Bytes

/-!
# Stored — data as blocks that hold their octets as they are

* `Deflate.store` — data as blocks without any code, each of at most `storeLimit` octets.
-/

namespace StackSynth
namespace Deflate

/-- The most octets of a block that holds them as they are. -/
def storeLimit : Nat := 65535

def storedBlock (last : Bool) (bs : Bytes) : Bytes :=
  (if last then 1 else 0) :: (Bytes.littleEndian 2 bs.length
    ++ Bytes.littleEndian 2 (storeLimit - bs.length) ++ bs)

def store (bs : Bytes) : Bytes :=
  match _h : bs.drop storeLimit with
  | [] => storedBlock true bs
  | next :: rest => storedBlock false (bs.take storeLimit) ++ store (next :: rest)
termination_by bs.length
decreasing_by
  have shorter : (bs.drop storeLimit).length = rest.length + 1 := by simp [_h]
  simp only [List.length_drop, List.length_cons, storeLimit] at shorter ⊢
  omega

end Deflate
end StackSynth
