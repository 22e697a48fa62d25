import LineScript.Text.Basic

/-!
Texts as bytes in UTF-8.
-/

namespace LineScript
namespace Text

def ofBytes? (bytes : List UInt8) : Option Text :=
  (String.fromUTF8? ⟨bytes.toArray⟩).map String.toList

def toBytes (text : Text) : List UInt8 :=
  (String.ofList text).toUTF8.toList

end Text
end LineScript
