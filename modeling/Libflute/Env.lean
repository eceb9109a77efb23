import Libflute.Xml

namespace Libflute

/-- The libraries the code is built on, as functions. -/
structure Env where
  /-- OpenSSL's digest of a byte string. -/
  md5 : List UInt8 → List UInt8
  md5_length : ∀ data, (md5 data).length = 16
  /-- Whether an allocation of so many bytes succeeds. -/
  malloc : Nat → Bool
  /-- What the memory of an allocation of so many bytes holds. -/
  fresh : Nat → List UInt8
  fresh_length : ∀ n, (fresh n).length = n
  /-- The stream zlib compresses a byte string to with window bits `15 | 16`. -/
  deflate : List UInt8 → List UInt8
  deflate_ne_nil : ∀ data, deflate data ≠ []
  /-- What a byte string decompresses to as a stream with the given window bits. -/
  inflate : Nat → List UInt8 → Option (List UInt8)
  /-- The root element tinyxml2 finds in a byte string. -/
  parseXml : List UInt8 → Option XmlElement
  /-- The document tinyxml2 prints: the XML declaration and the root element. -/
  printXml : XmlElement → List UInt8
  printXml_ne_nil : ∀ root, printXml root ≠ []

end Libflute
