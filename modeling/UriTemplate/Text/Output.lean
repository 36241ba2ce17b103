import UriTemplate.Text.Quoted
import UriTemplate.Text.Utf8

/-!
# Texts that are written out

UTF-8 has no form for surrogates, so a text that holds one cannot be written out as it is.

* `Utf8.encode` — the bytes of a text without surrogates, or where its first run of surrogates lies.
-/

namespace UriTemplate.Utf8

/-- The first run of surrogates in a text. -/
structure SurrogateRun where
  start : Nat
  length : Nat
  first : CodePoint
deriving DecidableEq

def SurrogateRun.message (r : SurrogateRun) : Text :=
  let place : Text :=
    if r.length = 1 then ("character '" : Text) ++ r.first.escape ++ ("' in position " : Text) ++ Text.ofNat r.start
    else ("characters in position " : Text) ++ Text.ofNat r.start ++ ("-" : Text)
      ++ Text.ofNat (r.start + r.length - 1)
  ("'utf-8' codec can't encode " : Text) ++ place ++ (": surrogates not allowed" : Text)

def encode (t : Text) : Except SurrogateRun Bytes :=
  match t.dropWhile (!·.isSurrogate) with
  | [] => .ok t.utf8
  | c :: rest =>
    .error ⟨(t.takeWhile (!·.isSurrogate)).length, (rest.takeWhile (·.isSurrogate)).length + 1, c⟩

end UriTemplate.Utf8
