import UriTemplate.Text.Basic

/-!
# Versions of YAML

* `Yaml.Version` — a version, 1.2 unless a text says otherwise;
* `Version.isAfter` — the order of versions.
-/

namespace UriTemplate.Yaml

structure Version where
  major : Nat := 1
  minor : Nat := 2
deriving DecidableEq

namespace Version

def v11 : Version := ⟨1, 1⟩

def v12 : Version := ⟨1, 2⟩

def isAfter (v w : Version) : Bool := w.major < v.major || (v.major == w.major && w.minor < v.minor)

end Version

end UriTemplate.Yaml
