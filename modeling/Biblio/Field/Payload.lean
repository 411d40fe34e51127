/-!
# Payloads

A payload writes subfields one after the other, each as a dollar sign, its code
and its value. Inside a value a dollar sign is written twice. `decode?` reads a
payload back into its groups, the subfields with an empty value included; a lone
line feed is a payload without groups.
-/

namespace Biblio

namespace Payload

abbrev Group := Char × List Char

def isCode (c : Char) : Bool :=
  ('a' ≤ c && c ≤ 'z') || ('A' ≤ c && c ≤ 'Z') || ('0' ≤ c && c ≤ '9')

def encodeValue : List Char → List Char
  | [] => []
  | c :: cs => if c = '$' then '$' :: '$' :: encodeValue cs else c :: encodeValue cs

def encodeGroup (g : Group) : List Char :=
  '$' :: g.1 :: encodeValue g.2

def encode (gs : List Group) : List Char :=
  gs.flatMap encodeGroup

/-- Reads the rest of a value and the groups behind it. A dollar sign has to be
followed by another one or by a code. -/
def decodeValue? : List Char → Option (List Char × List Group)
  | [] => some ([], [])
  | '$' :: '$' :: cs => (decodeValue? cs).map fun (v, gs) => ('$' :: v, gs)
  | '$' :: c :: cs =>
    if isCode c then (decodeValue? cs).map fun (v, gs) => ([], (c, v) :: gs) else none
  | ['$'] => none
  | c :: cs => (decodeValue? cs).map fun (v, gs) => (c :: v, gs)

def decode? : List Char → Option (List Group)
  | [] => some []
  | ['\n'] => some []
  | '$' :: c :: cs =>
    if isCode c then (decodeValue? cs).map fun (v, gs) => (c, v) :: gs else none
  | _ => none

@[simp] theorem encodeValue_nil : encodeValue [] = [] := rfl

@[simp] theorem encode_nil : encode [] = [] := rfl

@[simp] theorem encode_cons (g : Group) (gs : List Group) :
    encode (g :: gs) = encodeGroup g ++ encode gs := by
  simp [encode]

@[simp] theorem decode?_nil : decode? [] = some [] := rfl

theorem ne_dollar_of_isCode {c : Char} (h : isCode c = true) : c ≠ '$' := by
  rintro rfl
  simp [isCode] at h

end Payload

end Biblio
