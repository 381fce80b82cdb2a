import ByteTemplate.Analysis
import ByteTemplate.CommandLine.Program
import ByteTemplate.Main
import ByteTemplate.Message.Codec
import ByteTemplate.Proofs.Codec.Base64
import ByteTemplate.Proofs.Codec.Integer
import ByteTemplate.Proofs.Codec.Nibbles
import ByteTemplate.Proofs.Codec.Padded
import ByteTemplate.Proofs.Message.Declaration
import ByteTemplate.Proofs.Message.RoundTrip
import ByteTemplate.Proofs.Message.Texts
import ByteTemplate.Proofs.Message.Truncation
import ByteTemplate.Proofs.Size
import ByteTemplate.Proofs.Template
import ByteTemplate.Proofs.Text.Cut
import ByteTemplate.Proofs.Composition
import ByteTemplate.Proofs.Lossless
import ByteTemplate.Proofs.FixedSize
import ByteTemplate.Proofs.Message.Alignment
import ByteTemplate.Proofs.Safety
import ByteTemplate.Proofs.Message.Safety
import ByteTemplate.Proofs.Message.Prefix
import ByteTemplate.Proofs.Escapes
import ByteTemplate.Proofs.Number.Conversion
import ByteTemplate.Proofs.Stability
import ByteTemplate.Proofs.Grammar
import ByteTemplate.Proofs.HostIndependence
import ByteTemplate.Proofs.Limit
import ByteTemplate.Proofs.Message.Size
import ByteTemplate.Proofs.Text.Codepoints
import ByteTemplate.Proofs.Codec.Base64.Lines
import ByteTemplate.Proofs.Codec.Base64.Noise
import ByteTemplate.Proofs.Codec.Nibbles.WrittenBack
import ByteTemplate.Proofs.Codec.Float
import ByteTemplate.Proofs.Bytewise
import ByteTemplate.Proofs.FewerValues
import ByteTemplate.Proofs.FirstValue
import ByteTemplate.Proofs.LookAhead
import ByteTemplate.Proofs.ShortData
import ByteTemplate.Proofs.Buffer
import ByteTemplate.Proofs.Cursor
import ByteTemplate.Proofs.Codec.Integer.Congruence
