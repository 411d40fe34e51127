import Biblio.Store.Value

/-!
# Settings

The only setting is how many locators are remembered. It is read from a table of
names and texts; a missing or blank text stands for the default.
-/

namespace Biblio

namespace Settings

def cacheSizeName : String := "PICA_LOCATOR_CACHE_SIZE"

def defaultCacheSize : Nat := 1024

def readCacheSize (s : String) : Except ContentError Nat :=
  let text := Text.trim s.toList
  if text.isEmpty then .ok defaultCacheSize
  else
    match Text.readInt? text with
    | none => .error (.noInteger cacheSizeName (String.ofList text))
    | some (.ofNat n) => .ok n
    | some n => .error (.negative cacheSizeName n)

def cacheSize (settings : List (String × String)) : Except ContentError Nat :=
  readCacheSize ((settings.lookup cacheSizeName).getD "")

def cacheSizeOf (settings : List (String × Datum)) : Except Fault Nat :=
  match settings.lookup cacheSizeName with
  | none => .ok defaultCacheSize
  | some (.text s) => (readCacheSize s).mapError .content
  | some v => .error (.operation (.noMember v.typeName "strip"))

end Settings

end Biblio
