import TecMidi.Rx.RxDecMIDI
import TecMidi.Rx.Resync
import TecMidi.Rx.RealTime
import TecMidi.Soft.VelocidadCero
import TecMidi.Rx.Estabiliza
import TecMidi.Rx.UartNoise
import TecMidi.Rx.UartSafety
import TecMidi.Bus.Registros
import TecMidi.System.Sistema
import TecMidi.I2c.Framing
import TecMidi.I2c.Rangos
import TecMidi.Audio.SoundModule
import TecMidi.Audio.Muestras
import TecMidi.Rx.Muestreo
import TecMidi.Audio.Corriente
import TecMidi.System.Entrega
import TecMidi.System.Placa
import TecMidi.I2c.Termina
import TecMidi.I2c.Escritura
import TecMidi.Rx.Recupera
import TecMidi.Rx.Acuse
import TecMidi.Rx.Tolerancia
import TecMidi.Rx.UartTolerancia
